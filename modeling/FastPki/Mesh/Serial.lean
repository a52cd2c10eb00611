import FastPki.Crl.Serial
import FastPki.Framework.Digits
import FastPki.Notify.Email
import Mathlib.Data.Nat.Size
import Mathlib.Tactic.Ring

namespace FastPki.Mesh

open X509 (Octets)
open Certs (Row)
open Crl (serialHex)
open Notify (hexFour issuedByPrefix)

/-- `g_dc_id` and `g_dc_prefix`. -/
structure DcFacts where
  id : String
  number : Nat
  inRange : number≤32767
  unset : id="" → number=0

def setDatacenterSerialPrefix (dcId : String) (p : Int) : Except String DcFacts :=
  if h : p ≠ 0 ∧ (p < 1 ∨ p > 32767) then
    .error ("data center serial prefix out of range (1..32767): "++toString p)
  else if hid : dcId = "" then .ok ⟨dcId,0,by omega,fun _ => rfl⟩
  else .ok ⟨dcId,p.toNat,by omega,fun he => absurd he hid⟩

/-- The first octets: the prefix, or a positive number that is not zero. -/
def stamp (p : Nat) : Octets → Octets
  | [] => []
  | [a] => if p ≠ 0 then [UInt8.ofNat (p/256)]
      else [if a &&& 0x7f = 0 then 1 else a &&& 0x7f]
  | a::b::rest => if p ≠ 0 then UInt8.ofNat (p/256)::UInt8.ofNat (p%256)::rest
      else (if a &&& 0x7f = 0 then 1 else a &&& 0x7f)::b::rest

def bnBin2bn (raw : Octets) : Nat := raw.foldl (fun n b => n*256+b.toNat) 0

/-- The number a certificate gets. `randBytes` is what `RAND_bytes` fills a buffer of each size
with, `none` where it fails. -/
def setRandomSerial (dc : DcFacts) (bytesN : Int) (randBytes : (n : Nat) → Option (Vector UInt8 n)) :
    Except String Nat :=
  if dc.id ≠ "" ∧ dc.number = 0 then
    .error ("refusing to assign a serial: DATACENTER_ID="++dc.id++
      " but no serial prefix is resolved for this node")
  else if dc.number ≠ 0 ∧ bytesN ≠ 20 then
    .error ("CERT_SERIAL_BYTES="++toString bytesN++" but a data center prefix requires exactly 20 "++
      "(the mesh guard reads the prefix at a fixed position in a 40-hex-character serial)")
  else if bytesN < 0 then .error "length_error"
  else match randBytes bytesN.toNat with
    | none => .error "RAND_bytes failed: "
    | some raw => .ok (bnBin2bn (stamp dc.number raw.toList))

/-- The content octets of a DER INTEGER: there is one bit for the sign. -/
def derIntegerOctets (n : Nat) : Nat := n.size/8+1

/-- `lpad(s,40,'0')` cuts what is longer. -/
def lpad40 (s : List Char) : List Char :=
  if s.length ≥ 40 then s.take 40 else List.replicate (40-s.length) '0'++s

/-- `left(lpad(lower(serial),40,'0'),4)` -/
def serialPrefix (serial : String) : List Char := (lpad40 (serial.toList.map Char.toLower)).take 4

/-- The four digits, written from the last to the first. -/
def prefixHex (number : Nat) : List Char := fixedDigits 16 4 number

/-- The function `fastpki_dc_range_guard` of the data center with this number. A CA's row and a
row of the deployment's own certificates pass. -/
def dcRangeGuard (number : Nat) (row : Row) : Bool :=
  if row.isCa || row.certId.isSome then true else serialPrefix row.serial = prefixHex number

theorem prefixHex_eq_hexFour (number : Nat) : prefixHex number=hexFour number := by
  simp only [prefixHex,fixedDigits,hexFour,List.map_cons,List.map_nil,List.nil_append,
    List.cons_append,Nat.div_div_eq_div_mul]

theorem foldl_octets (raw : Octets) (n : Nat) :
    raw.foldl (fun n b => n*256+b.toNat) n=n*256^raw.length+bnBin2bn raw := by
  induction raw generalizing n with
  | nil => simp [bnBin2bn]
  | cons a raw ih =>
    have hcons : bnBin2bn (a::raw)=(0*256+a.toNat)*256^raw.length+bnBin2bn raw := ih _
    rw [List.foldl_cons,ih,hcons,List.length_cons,Nat.pow_succ]
    ring

theorem bnBin2bn_cons (a : UInt8) (raw : Octets) :
    bnBin2bn (a::raw)=a.toNat*256^raw.length+bnBin2bn raw := by
  rw [bnBin2bn,List.foldl_cons,foldl_octets,Nat.zero_mul,Nat.zero_add]

theorem bnBin2bn_lt (raw : Octets) : bnBin2bn raw < 256^raw.length := by
  induction raw with
  | nil => decide
  | cons a raw ih =>
    have ha : a.toNat < 256 := a.toNat_lt
    rw [bnBin2bn_cons,List.length_cons,Nat.pow_succ]
    calc a.toNat*256^raw.length+bnBin2bn raw
        < a.toNat*256^raw.length+256^raw.length := by omega
      _ = (a.toNat+1)*256^raw.length := by ring
      _ ≤ 256*256^raw.length := Nat.mul_le_mul_right _ (by omega)
      _ = 256^raw.length*256 := Nat.mul_comm _ _

/-- With a prefix the number is the prefix in front of 18 random octets. -/
theorem bnBin2bn_stamp {p : Nat} (hp : p≠0) (hmax : p≤32767) (a b : UInt8) (rest : Octets) :
    bnBin2bn (stamp p (a::b::rest))=p*256^rest.length+bnBin2bn rest := by
  have hhigh : (UInt8.ofNat (p/256)).toNat=p/256 := by
    rw [UInt8.toNat_ofNat']
    omega
  have hlow : (UInt8.ofNat (p%256)).toNat=p%256 := by
    rw [UInt8.toNat_ofNat']
    omega
  have hsplit : p=p/256*256+p%256 := by omega
  rw [stamp,if_pos hp,bnBin2bn_cons,bnBin2bn_cons,hhigh,hlow,List.length_cons,Nat.pow_succ]
  calc p/256*(256^rest.length*256)+(p%256*256^rest.length+bnBin2bn rest)
      = (p/256*256+p%256)*256^rest.length+bnBin2bn rest := by ring
    _ = p*256^rest.length+bnBin2bn rest := by rw [← hsplit]

/-- Without one the first octet is not zero. -/
theorem bnBin2bn_stamp_pos {raw : Octets} (h : raw≠[]) : 0 < bnBin2bn (stamp 0 raw) := by
  have hfirst : ∀ a : UInt8,0 < (if a &&& 0x7f=0 then 1 else a &&& 0x7f : UInt8).toNat := by
    intro a
    split_ifs with hzero
    · decide
    · apply Nat.pos_of_ne_zero
      intro hnat
      apply hzero
      exact UInt8.toNat_inj.mp hnat
  have hhead : ∃ a rest,stamp 0 raw=(if a &&& 0x7f=0 then 1 else a &&& 0x7f : UInt8)::rest := by
    match raw,h with
    | [a],_ => exact ⟨a,[],rfl⟩
    | a::b::rest,_ => exact ⟨a,b::rest,rfl⟩
  obtain ⟨a,rest,hstamp⟩ := hhead
  rw [hstamp,bnBin2bn_cons]
  have hpos : 0 < (if a &&& 0x7f=0 then 1 else a &&& 0x7f : UInt8).toNat*256^rest.length :=
    Nat.mul_pos (hfirst a) (Nat.pow_pos (by decide))
  omega

theorem toLower_toUpper_digitChar {d : Nat} (hd : d < 16) :
    (Nat.digitChar d).toUpper.toLower=Nat.digitChar d := by
  have hall : ∀ d < 16,(Nat.digitChar d).toUpper.toLower=Nat.digitChar d := by decide
  exact hall d hd

theorem toLower_digitChar {d : Nat} (hd : d < 16) :
    (Nat.digitChar d).toLower=Nat.digitChar d := by
  have hall : ∀ d < 16,(Nat.digitChar d).toLower=Nat.digitChar d := by decide
  exact hall d hd

theorem mem_toDigits {n : Nat} {c : Char} (h : c∈Nat.toDigits 16 n) :
    ∃ d,d < 16 ∧ c=Nat.digitChar d := by
  induction n using Nat.strongRecOn with
  | ind n ih =>
    rw [Nat.toDigits_eq_if (by decide)] at h
    split_ifs at h with hlt
    · exact ⟨n,hlt,List.mem_singleton.mp h⟩
    · rcases List.mem_append.mp h with h | h
      · exact ih (n/16) (by omega) h
      · exact ⟨n%16,Nat.mod_lt n (by decide),List.mem_singleton.mp h⟩

theorem head_toDigits {n : Nat} (hn : 0 < n) : (Nat.toDigits 16 n).head? ≠ some '0' := by
  induction n using Nat.strongRecOn with
  | ind n ih =>
    rw [Nat.toDigits_eq_if (by decide)]
    split_ifs with hlt
    · have hall : ∀ d < 16,0 < d → [Nat.digitChar d].head? ≠ some '0' := by decide
      exact hall n hlt hn
    · have hfront := ih (n/16) (by omega) (by omega)
      have hne : Nat.toDigits 16 (n/16)≠[] := Nat.toDigits_ne_nil
      rwa [List.head?_append_of_ne_nil _ hne]

/-- The canonical spelling of a positive number is its digits. -/
theorem serialHex_toList {n : Nat} (hn : 0 < n) : (serialHex n).toList=Nat.toDigits 16 n := by
  have hlower : ((Nat.toDigits 16 n).map Char.toUpper).map Char.toLower=Nat.toDigits 16 n := by
    rw [List.map_map]
    refine (List.map_congr_left ?_).trans (List.map_id _)
    intro c hc
    obtain ⟨d,hd,rfl⟩ := mem_toDigits hc
    exact toLower_toUpper_digitChar hd
  have hdrop : (Nat.toDigits 16 n).dropWhile (· = '0')=Nat.toDigits 16 n := by
    have hhead := head_toDigits hn
    cases hdigits : Nat.toDigits 16 n with
    | nil => rfl
    | cons c l =>
      rw [hdigits] at hhead
      apply List.dropWhile_cons_of_neg
      simpa using hhead
  have hbn : ((Tls.bnBn2hex n).toList.map Char.toLower).dropWhile (· = '0')=
      Nat.toDigits 16 n := by
    have hneg : ¬(n : Int) < 0 := by omega
    simp only [Tls.bnBn2hex,Int.natAbs_natCast,if_neg hneg,String.toList_ofList]
    split_ifs
    · rw [List.map_cons,hlower,List.dropWhile_cons_of_pos (by decide),hdrop]
    · rw [hlower,hdrop]
  cases hdigits : Nat.toDigits 16 n with
  | nil => exact absurd hdigits Nat.toDigits_ne_nil
  | cons c l =>
    rw [hdigits] at hbn
    rw [serialHex,Cmp.canonicalSerial_cons (Tls.bnBn2hex_ne n) hbn,String.toList_ofList]

/-- All 40 digits of a serial of at most 20 octets. -/
theorem map_toLower_serialHex {n : Nat} (hn : 0 < n) :
    (serialHex n).toList.map Char.toLower=Nat.toDigits 16 n := by
  rw [serialHex_toList hn]
  refine (List.map_congr_left ?_).trans (List.map_id _)
  intro c hc
  obtain ⟨d,hd,rfl⟩ := mem_toDigits hc
  exact toLower_digitChar hd

theorem length_toDigits_le {n : Nat} (h : n < 16^40) : (Nat.toDigits 16 n).length≤40 :=
  (Nat.length_toDigits_le_iff (by decide) (by decide)).mpr h

theorem take_four_padded {n : Nat} (h : n < 16^40) :
    (List.replicate (40-(Nat.toDigits 16 n).length) '0'++Nat.toDigits 16 n).take 4=
      prefixHex (n/16^36) := by
  rw [replicate_append_toDigits (by decide) (by decide) h]
  exact take_fixedDigits 4 36 n

theorem serialPrefix_serialHex {n : Nat} (hn : 0 < n) (h : n < 16^40) :
    serialPrefix (serialHex n)=prefixHex (n/16^36) := by
  have hlength := length_toDigits_le h
  rw [serialPrefix,map_toLower_serialHex hn,← take_four_padded h]
  unfold lpad40
  split_ifs with hfull
  · have hpad : 40-(Nat.toDigits 16 n).length=0 := by omega
    have hwhole : (Nat.toDigits 16 n).take 40=Nat.toDigits 16 n := List.take_of_length_le hlength
    rw [hwhole,hpad,List.replicate_zero,List.nil_append]
  · rfl

theorem issuedByPrefix_serialHex {n q : Nat} (hn : 0 < n) (h : n < 16^40) (hq : q≠0) :
    issuedByPrefix (serialHex n) q=true ↔ prefixHex (n/16^36)=prefixHex q := by
  have hlength := length_toDigits_le h
  have hshort : ¬(Nat.toDigits 16 n).length > 40 := by omega
  simp only [issuedByPrefix,if_neg hq,map_toLower_serialHex hn,if_neg hshort,take_four_padded h,
    ← prefixHex_eq_hexFour,decide_eq_true_eq]

theorem prefixHex_inj {p q : Nat} (hp : p≤32767) (hq : q≤32767) :
    prefixHex p=prefixHex q ↔ p=q := by
  constructor
  · intro h
    apply fixedDigits_injective (by decide : 0 < 16) (by decide) _ _ h
    · omega
    · omega
  · intro h
    rw [h]

/-- What a data center mints: its number in front of 18 octets. -/
theorem setRandomSerial_eq {dc : DcFacts} (hdc : dc.number≠0)
    {randBytes : (n : Nat) → Option (Vector UInt8 n)} {raw : Vector UInt8 20}
    (hraw : randBytes 20=some raw) :
    ∃ r,r < 256^18 ∧ setRandomSerial dc 20 randBytes=.ok (dc.number*256^18+r) := by
  have hlength : raw.toList.length=20 := raw.length_toList
  match hlist : raw.toList,hlength with
  | a::b::rest,hlength =>
    have hrest : rest.length=18 := by
      simp only [List.length_cons] at hlength
      omega
    refine ⟨bnBin2bn rest,?_,?_⟩
    · have hlt := bnBin2bn_lt rest
      rwa [hrest] at hlt
    · have hid : ¬(dc.id≠"" ∧ dc.number=0) := fun hc => hdc hc.2
      have hwidth : ¬(dc.number≠0 ∧ (20 : Int)≠20) := fun hc => hc.2 rfl
      have hneg : ¬(20 : Int) < 0 := by decide
      have hnum := bnBin2bn_stamp hdc dc.inRange a b rest
      rw [hrest] at hnum
      have hbytes : randBytes (20 : Int).toNat=some raw := hraw
      simp only [setRandomSerial,if_neg hid,if_neg hwidth,if_neg hneg,hbytes,hlist,hnum]

/-- Without a prefix the octets are taken as they are, but for zero. -/
theorem setRandomSerial_unset {dc : DcFacts} (hid : dc.id="") {width : Int} (hwidth : 1≤width)
    {randBytes : (n : Nat) → Option (Vector UInt8 n)} {raw : Vector UInt8 width.toNat}
    (hraw : randBytes width.toNat=some raw) :
    ∃ n,setRandomSerial dc width randBytes=.ok n ∧ 0 < n := by
  have hzero := dc.unset hid
  have hset : ¬(dc.id≠"" ∧ dc.number=0) := fun hc => hc.1 hid
  have hprefixed : ¬(dc.number≠0 ∧ width≠20) := fun hc => hc.1 hzero
  have hneg : ¬width < 0 := by omega
  refine ⟨bnBin2bn (stamp dc.number raw.toList),?_,?_⟩
  · simp only [setRandomSerial,if_neg hset,if_neg hprefixed,if_neg hneg,hraw]
  · rw [hzero]
    apply bnBin2bn_stamp_pos
    intro hnil
    have hlength : raw.toList.length=width.toNat := raw.length_toList
    rw [hnil,List.length_nil] at hlength
    omega

/-- A row that the trigger judges passes in the data center whose digits it carries. -/
theorem dcRangeGuard_iff {p q : Nat} (hp : p≤32767) (hq : q≤32767) {row : Row}
    (h : serialPrefix row.serial=prefixHex p) :
    dcRangeGuard q row=true ↔ row.isCa=true ∨ row.certId.isSome=true ∨ q=p := by
  unfold dcRangeGuard
  rw [h]
  split_ifs with hexempt
  · rcases Bool.or_eq_true_iff.mp hexempt with hca | hid
    · simp [hca]
    · simp [hid]
  · rw [decide_eq_true_eq,prefixHex_inj hp hq]
    simp only [Bool.or_eq_true,not_or] at hexempt
    simp [hexempt.1,hexempt.2,eq_comm]

/-- The serial of a data center with prefix `p` is positive and of at most 20 octets, and carries
the digits of `p`: where the row is one that the trigger judges, the data center that takes it as
its own is the one with prefix `p`. Without a prefix the serial is positive whatever its width. -/
theorem serial_carries_data_center (dc : DcFacts) (randBytes : (n : Nat) → Option (Vector UInt8 n)) :
    (dc.number≠0 → ∀ raw,randBytes 20=some raw →
      ∃ n,setRandomSerial dc 20 randBytes=.ok n ∧ 0 < n ∧ derIntegerOctets n≤20 ∧
        (lpad40 (serialHex n).toList).take 4=prefixHex dc.number ∧
        ∀ q,1≤q → q≤32767 →
          (∀ row : Row,row.serial=serialHex n →
            (dcRangeGuard q row=true ↔ row.isCa=true ∨ row.certId.isSome=true ∨ q=dc.number)) ∧
          (issuedByPrefix (serialHex n) q=true ↔ q=dc.number)) ∧
    (dc.id="" → ∀ width : Int,1≤width → ∀ raw,randBytes width.toNat=some raw →
      ∃ n,setRandomSerial dc width randBytes=.ok n ∧ 0 < n) := by
  constructor
  · intro hdc raw hraw
    obtain ⟨r,hr,hserial⟩ := setRandomSerial_eq hdc hraw
    have hpow : (256 : Nat)^18=16^36 := by decide
    have hmax := dc.inRange
    rw [hpow] at hr hserial
    have hpos : 0 < dc.number*16^36+r := by omega
    have hlt : dc.number*16^36+r < 2^159 := by omega
    have hfits : dc.number*16^36+r < 16^40 := by omega
    have hquot : (dc.number*16^36+r)/16^36=dc.number := by omega
    have hdigits := serialPrefix_serialHex hpos hfits
    rw [hquot] at hdigits
    refine ⟨_,hserial,hpos,?_,?_,?_⟩
    · have hsize := Nat.size_le.mpr hlt
      unfold derIntegerOctets
      omega
    · rw [serialPrefix,map_toLower_serialHex hpos] at hdigits
      rwa [serialHex_toList hpos]
    · intro q hone hq
      constructor
      · intro row hrow
        rw [← hrow] at hdigits
        exact dcRangeGuard_iff hmax hq hdigits
      · rw [issuedByPrefix_serialHex hpos hfits (by omega),hquot,prefixHex_inj hmax hq,eq_comm]
  · intro hid width hwidth raw hraw
    exact setRandomSerial_unset hid hwidth hraw

/-- The data center with prefix 1. -/
def dcOne : DcFacts := ⟨"east",1,by decide,fun h => absurd h (by decide)⟩

/-- Not the randomness of any deployment. -/
def zeros (n : Nat) : Option (Vector UInt8 n) := some (Vector.replicate n 0)

theorem serial_carries_data_center_one :
    dcOne.number≠0 ∧ ∃ n,setRandomSerial dcOne 20 zeros=.ok n ∧
      issuedByPrefix (serialHex n) 1=true ∧ issuedByPrefix (serialHex n) 2=false := by
  obtain ⟨n,hn,_,_,_,hq⟩ := (serial_carries_data_center dcOne zeros).1 (by decide) _ rfl
  refine ⟨by decide,n,hn,(hq 1 (by decide) (by decide)).2.mpr rfl,?_⟩
  rw [← Bool.not_eq_true]
  intro h
  exact absurd ((hq 2 (by decide) (by decide)).2.mp h) (by decide)

/-- The row of a CA certificate, minted where the prefix is 1. -/
def caRow (serial : String) : Row where
  status := some 0
  revocationReason := none
  revocationDate := none
  notAfter := some 1
  serial := serial
  notBefore := some 0
  owner := ""
  cert := []
  caInstanceId := none
  sHash := none
  iHash := none
  isCa := true
  id := some "root"
  caEnabled := some true
  privateKey := ""
  certId := none
  insSeq := none

/-- The trigger of the data center with prefix 2 takes it. -/
theorem guard_takes_foreign_ca : ∃ n,setRandomSerial dcOne 20 zeros=.ok n ∧
    dcRangeGuard 2 (caRow (serialHex n))=true ∧ dcOne.number≠2 := by
  exact ⟨256^18,rfl,rfl,by decide⟩

end FastPki.Mesh
