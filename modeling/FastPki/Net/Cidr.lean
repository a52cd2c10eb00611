import FastPki.Net.Address

namespace FastPki.Net

open X509

section Prefix

/-- The octets and the mask compare the first bits, and these alone. -/
theorem samePrefix_iff {x y : Addr} (hbits : x.bits=y.bits) (len : Nat) :
    samePrefix x y len=true ↔ (bitsOf x.b).take len=(bitsOf y.b).take len := by
  have hlen : x.b.length=y.b.length := Nat.eq_of_mul_eq_mul_left (by decide : 0<8) hbits
  rw [take_bitsOf_eq_iff hlen,samePrefix]
  by_cases hwhole : x.b.take (len/8)=y.b.take (len/8)
  · rw [if_neg (not_not.mpr hwhole)]
    by_cases hrest : len%8=0
    · simp [hrest,hwhole]
    · have hmod : len%8<8 := Nat.mod_lt _ (by decide)
      rw [if_neg hrest,decide_eq_true_eq,and_mask_eq_iff (by omega) (by omega)]
      exact (and_iff_right hwhole).symm
  · rw [if_pos hwhole]
    simp [hwhole]

end Prefix

/-- A base and the number of its bits that count. -/
structure Block where
  base : Addr
  len : Nat
  le_bits : len≤base.bits
  deriving DecidableEq

def Block.ofAddr (base : Addr) (len : Nat) : Option Block :=
  if h : len≤base.bits then some ⟨base,len,h⟩ else none

/-- Only addresses of the base's family are inside. -/
def Block.Contains (k : Block) (a : Addr) : Prop :=
  k.base.bits=a.bits ∧ (bitsOf k.base.b).take k.len=(bitsOf a.b).take k.len

/-- The block that a CIDR is written for: a mapped base is an IPv4 one when its length covers the
mapping, which is then not counted. -/
def readBlock (cidr : Octets) : Option Block := do
  let (net,len) ← splitCidr (trim cidr)
  let base ← parseLiteral net
  let len := len.getD base.bits
  if base.mapped ∧ 96 ≤ len ∧ len ≤ 128 then Block.ofAddr base.unmap (len-96)
  else Block.ofAddr base len

/-- A mapped address is the IPv4 one. -/
def InRange (ip cidr : Octets) : Prop :=
  ∃ k a,readBlock cidr=some k ∧ parseAddr ip=some a ∧ k.Contains a

/-- A mapped base with a length of its own. -/
def MappedWithLength (cidr : Octets) : Prop :=
  ∃ net len base,splitCidr (trim cidr)=some (net,some len) ∧ parseLiteral net=some base ∧
    base.mapped=true ∧ len≤128

section Unmap

variable {a : Addr}

theorem Addr.bits_of_mapped (h : a.mapped=true) : a.bits=128 := by
  rw [mapped,Bool.and_eq_true,decide_eq_true_eq] at h
  rw [bits,h.1]

theorem Addr.unmap_of_mapped (h : a.mapped=true) : a.unmap.b=a.b.drop 12 := by
  rw [unmap,dif_pos h]

theorem Addr.bits_unmap_of_mapped (h : a.mapped=true) : a.unmap.bits=32 := by
  rw [bits,unmap_of_mapped h,length_drop_of_mapped h]

theorem Addr.unmap_of_not_mapped (h : ¬a.mapped=true) : a.unmap=a := dif_neg h

theorem Block.ofAddr_eq_some {base : Addr} {len : Nat} {k : Block}
    (h : Block.ofAddr base len=some k) : k.base=base ∧ k.len=len ∧ len≤base.bits := by
  rw [ofAddr] at h
  split_ifs at h with hle
  obtain rfl := Option.some.inj h
  exact ⟨rfl,rfl,hle⟩

end Unmap

section Code

variable {ip cidr net : Octets} {len : Option Nat} {base : Addr}

/-- The block the code compares with: the base is folded, its length is not. -/
def comparedBlock (base : Addr) (len : Option Nat) : Option Block :=
  Block.ofAddr base.unmap (len.getD base.unmap.bits)

theorem parseLiteral_nil : parseLiteral []=none := by decide

theorem ipInCidr_iff (hsplit : splitCidr (trim cidr)=some (net,len))
    (hbase : parseLiteral net=some base) : ipInCidr ip cidr=true ↔
      ∃ k a,comparedBlock base len=some k ∧ parseAddr ip=some a ∧ k.Contains a := by
  have hne : trim cidr≠[] := by
    intro hnil
    rw [hnil] at hsplit
    obtain rfl : []=net := congrArg Prod.fst (Option.some.inj hsplit)
    rw [parseLiteral_nil] at hbase
    cases hbase
  have hnet : parseAddr net=some base.unmap := by rw [parseAddr,hbase,Option.map_some]
  rw [ipInCidr,if_neg hne,hsplit]
  simp only [hnet]
  cases hip : parseAddr ip with
  | none => simp
  | some a =>
    simp only [comparedBlock,Block.ofAddr]
    by_cases hle : len.getD base.unmap.bits≤base.unmap.bits
    · rw [if_neg (by omega),dif_pos hle]
      by_cases hbits : base.unmap.bits=a.bits
      · rw [if_neg (not_not.mpr hbits),samePrefix_iff hbits]
        simp [Block.Contains,hbits]
      · rw [if_pos hbits]
        simp [Block.Contains,hbits]
    · rw [if_pos (by omega),dif_neg hle]
      simp

theorem ipInCidr_eq_false (hnone : splitCidr (trim cidr)=none ∨
    ∃ net len,splitCidr (trim cidr)=some (net,len) ∧ parseLiteral net=none) :
    ipInCidr ip cidr=false := by
  rw [ipInCidr]
  split_ifs
  · rfl
  · rcases hnone with h|⟨net,len,h,hnet⟩
    · rw [h]
    · rw [h]
      simp [parseAddr,hnet]

/-- Without a mapped base of its own length the code's block is the one that was written. -/
theorem comparedBlock_eq_readBlock (hsplit : splitCidr (trim cidr)=some (net,len))
    (hbase : parseLiteral net=some base) (hmapped : ¬MappedWithLength cidr) :
    comparedBlock base len=readBlock cidr := by
  have hread : readBlock cidr=
      if base.mapped ∧ 96 ≤ len.getD base.bits ∧ len.getD base.bits ≤ 128 then
        Block.ofAddr base.unmap (len.getD base.bits-96)
      else Block.ofAddr base (len.getD base.bits) := by
    simp only [readBlock,hsplit,Option.bind_eq_bind,Option.bind_some,hbase]
  rw [hread,comparedBlock]
  by_cases hm : base.mapped=true
  · have hwide := Addr.bits_of_mapped hm
    have hnarrow := Addr.bits_unmap_of_mapped hm
    cases len with
    | none => rw [if_pos (by simp [hm,hwide]),Option.getD_none,Option.getD_none,hwide,hnarrow]
    | some len =>
      have hlong : ¬len≤128 := fun hle => hmapped ⟨net,len,base,hsplit,hbase,hm,hle⟩
      rw [if_neg (by simp [hlong]),Option.getD_some,Option.getD_some,Block.ofAddr,Block.ofAddr,
        dif_neg (by omega),dif_neg (by omega)]
  · rw [if_neg (by simp [hm]),Addr.unmap_of_not_mapped hm]

end Code

section Mapped

/-- Just outside the mapped range, with which it shares 95 bits. -/
def besideMapped : Octets := octets "::fffe:0:0"

def besideMappedAddr : Addr := ⟨[0,0,0,0,0,0,0,0,0,0,0xff,0xfe,0,0,0,0],Or.inr rfl⟩

theorem parseAddr_besideMapped : parseAddr besideMapped=some besideMappedAddr := by
  decide

theorem take_besideMapped {len : Nat} (hlen : len<96) {base : Addr} (h : base.mapped=true) :
    (bitsOf base.b).take len=(bitsOf besideMappedAddr.b).take len := by
  have hhead : base.b.take 12=mappedPrefix := by
    rw [Addr.mapped,Bool.and_eq_true,decide_eq_true_eq,decide_eq_true_eq] at h
    exact h.2
  have hbits : (bitsOf base.b).take 95=(bitsOf besideMappedAddr.b).take 95 := by
    rw [← List.take_append_drop 12 base.b,hhead]
    rfl
  have hmin := congrArg (List.take len) hbits
  rwa [List.take_take,List.take_take,Nat.min_eq_left (by omega)] at hmin

/-- A mapped base of its own length has an address that the code judges wrongly. -/
theorem exists_misjudged {cidr : Octets} (h : MappedWithLength cidr) :
    ∃ ip,ipInCidr ip cidr=false ∧ InRange ip cidr := by
  obtain ⟨net,len,base,hsplit,hbase,hm,hle⟩ := h
  have hwide := Addr.bits_of_mapped hm
  have hnarrow := Addr.bits_unmap_of_mapped hm
  have hread : readBlock cidr=
      if base.mapped ∧ 96 ≤ len ∧ len ≤ 128 then Block.ofAddr base.unmap (len-96)
      else Block.ofAddr base len := by
    simp only [readBlock,hsplit,Option.bind_eq_bind,Option.bind_some,hbase,Option.getD_some]
  by_cases hlen : 96≤len
  -- the base itself
  · refine ⟨net,?_,⟨base.unmap,len-96,by omega⟩,base.unmap,?_,?_,rfl,rfl⟩
    · rw [Bool.eq_false_iff]
      intro htrue
      obtain ⟨k,a,hk,-⟩ := (ipInCidr_iff hsplit hbase).mp htrue
      obtain ⟨-,-,hk⟩ := Block.ofAddr_eq_some hk
      rw [Option.getD_some] at hk
      omega
    · rw [hread,if_pos ⟨hm,hlen,hle⟩,Block.ofAddr,dif_pos]
    · rw [parseAddr,hbase,Option.map_some]
  · refine ⟨besideMapped,?_,⟨base,len,by omega⟩,besideMappedAddr,?_,parseAddr_besideMapped,hwide,
      take_besideMapped (Nat.lt_of_not_le hlen) hm⟩
    · rw [Bool.eq_false_iff]
      intro htrue
      obtain ⟨k,a,hk,ha,hbits,-⟩ := (ipInCidr_iff hsplit hbase).mp htrue
      rw [parseAddr_besideMapped] at ha
      obtain rfl := Option.some.inj ha
      rw [(Block.ofAddr_eq_some hk).1,hnarrow] at hbits
      cases hbits
    · rw [hread,if_neg fun h => hlen h.2.1,Block.ofAddr,dif_pos]

end Mapped

theorem ipInCidr_iff_inRange {cidr : Octets} (hmapped : ¬MappedWithLength cidr) (ip : Octets) :
    ipInCidr ip cidr=true ↔ InRange ip cidr := by
  cases hsplit : splitCidr (trim cidr) with
  | none =>
    rw [ipInCidr_eq_false (Or.inl hsplit)]
    simp [InRange,readBlock,hsplit]
  | some parts =>
    obtain ⟨net,len⟩ := parts
    cases hbase : parseLiteral net with
    | none =>
      rw [ipInCidr_eq_false (Or.inr ⟨net,len,hsplit,hbase⟩)]
      simp [InRange,readBlock,hsplit,hbase]
    | some base =>
      rw [ipInCidr_iff hsplit hbase,comparedBlock_eq_readBlock hsplit hbase hmapped]
      rfl

/-- Containment is decided as it is written, unless a mapped base comes with a length: the base is
folded to IPv4 and the length is not. -/
theorem ip_in_cidr_exact_iff (cidr : Octets) :
    (∀ ip,ipInCidr ip cidr=true ↔ InRange ip cidr) ↔ ¬MappedWithLength cidr := by
  constructor
  · intro h hmapped
    obtain ⟨ip,hcode,hrange⟩ := exists_misjudged hmapped
    rw [(h ip).mpr hrange] at hcode
    cases hcode
  · intro hmapped ip
    exact ipInCidr_iff_inRange hmapped ip

theorem mapped_block_never_matches :
    ipInCidr (octets "10.1.2.3") (octets "::ffff:10.0.0.0/104")=false ∧
    InRange (octets "10.1.2.3") (octets "::ffff:10.0.0.0/104") := by
  exact ⟨by decide,⟨⟨[10,0,0,0],Or.inl rfl⟩,8,by decide⟩,⟨[10,1,2,3],Or.inl rfl⟩,
    by decide,by decide,by decide,by decide⟩

end FastPki.Net
