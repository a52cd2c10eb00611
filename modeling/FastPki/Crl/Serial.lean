import FastPki.Tls.ClientCert

namespace FastPki.Crl
open Cmp Tls

/-- `x509_serial_hex` of a certificate with this serial number, the spelling of `certs.serial`. -/
def serialHex (n : Int) : String := canonicalSerial (bnBn2hex n)

def hexDigit (c : Char) : Option Nat :=
  if '0' ≤ c ∧ c ≤ '9' then some (c.toNat- '0'.toNat)
  else if 'a' ≤ c ∧ c ≤ 'f' then some (c.toNat- 'a'.toNat+10)
  else if 'A' ≤ c ∧ c ≤ 'F' then some (c.toNat- 'A'.toNat+10)
  else none

def hexNumber (l : List Char) : Nat := l.foldl (fun n c => 16*n+(hexDigit c).getD 0) 0

def unsignedHex (l : List Char) : Option Nat :=
  let digits := l.takeWhile fun c => (hexDigit c).isSome
  if digits = [] then none else some (hexNumber digits)

/-- `BN_hex2bn`: a sign, then digits up to whatever follows them; `none` where there are none. -/
def bnHex2bn (s : String) : Option Int :=
  match s.toList with
  | '-'::l => (unsignedHex l).map Int.negOfNat
  | l => (unsignedHex l).map Int.ofNat

theorem hexDigit_digitChar {d : Nat} (hd : d<16) :
    hexDigit (Nat.digitChar d).toUpper.toLower=some d := by
  have hall : ∀ d<16,hexDigit (Nat.digitChar d).toUpper.toLower=some d := by decide
  exact hall d hd

theorem hexNumber_append (l : List Char) (c : Char) :
    hexNumber (l++[c])=16*hexNumber l+(hexDigit c).getD 0 := by
  simp [hexNumber]

/-- The digits `BN_bn2hex` prints, made lower-case, spell the number. -/
theorem hexNumber_toDigits (n : Nat) :
    hexNumber (((Nat.toDigits 16 n).map Char.toUpper).map Char.toLower)=n ∧
      ∀ c∈((Nat.toDigits 16 n).map Char.toUpper).map Char.toLower,(hexDigit c).isSome := by
  induction n using Nat.strongRecOn with
  | ind n ih =>
    rw [Nat.toDigits_eq_if (by decide)]
    split_ifs with hlt
    · have hd := hexDigit_digitChar hlt
      constructor
      · simp only [List.map_singleton,hexNumber,List.foldl_cons,List.foldl_nil,hd,Option.getD_some]
        omega
      · intro c hc
        rw [List.map_singleton,List.map_singleton,List.mem_singleton] at hc
        rw [hc,hd]
        rfl
    · have hmod := hexDigit_digitChar (Nat.mod_lt n (by decide : 0<16))
      obtain ⟨hval,hhex⟩ := ih (n/16) (by omega)
      rw [List.map_append,List.map_append,List.map_singleton,List.map_singleton,
        hexNumber_append,hval,hmod]
      constructor
      · simp only [Option.getD_some]
        omega
      · intro c hc
        obtain hc|hc := List.mem_append.mp hc
        · exact hhex c hc
        · rw [List.mem_singleton.mp hc,hmod]
          rfl

theorem hexNumber_dropWhile (l : List Char) :
    hexNumber (l.dropWhile (· = '0'))=hexNumber l := by
  induction l with
  | nil => rfl
  | cons c l ih =>
    by_cases hc : c= '0'
    · subst hc
      rw [List.dropWhile_cons_of_pos (by decide),ih]
      rfl
    · rw [List.dropWhile_cons_of_neg (by simpa using hc)]

theorem unsignedHex_of_digits {l : List Char} (hne : l≠[]) (hhex : ∀ c∈l,(hexDigit c).isSome) :
    unsignedHex l=some (hexNumber l) := by
  have hall : l.takeWhile (fun c => (hexDigit c).isSome)=l := List.takeWhile_eq_self_iff.mpr hhex
  simp only [unsignedHex,hall]
  rw [if_neg hne]

/-- The octets of a number as `BN_bn2hex` prints them, made lower-case. -/
theorem bnBn2hex_toList (n : Int) : ∃ l : List Char,l≠[] ∧ (∀ c∈l,(hexDigit c).isSome) ∧
    hexNumber l=n.natAbs ∧
    (bnBn2hex n).toList.map Char.toLower=if n<0 then '-'::l else l := by
  obtain ⟨hval,hhex⟩ := hexNumber_toDigits n.natAbs
  have hne : ((Nat.toDigits 16 n.natAbs).map Char.toUpper).map Char.toLower≠[] := by
    simp [Nat.toDigits_ne_nil]
  simp only [bnBn2hex,String.toList_ofList]
  split_ifs with hneg hpad hpad
  · refine ⟨'0'::((Nat.toDigits 16 n.natAbs).map Char.toUpper).map Char.toLower,by simp,?_,hval,rfl⟩
    exact List.forall_mem_cons.mpr ⟨rfl,hhex⟩
  · exact ⟨_,hne,hhex,hval,rfl⟩
  · refine ⟨'0'::((Nat.toDigits 16 n.natAbs).map Char.toUpper).map Char.toLower,by simp,?_,hval,rfl⟩
    exact List.forall_mem_cons.mpr ⟨rfl,hhex⟩
  · exact ⟨_,hne,hhex,hval,rfl⟩

theorem bnHex2bn_of_digits {l : List Char} (hne : l≠[]) (hhex : ∀ c∈l,(hexDigit c).isSome) :
    bnHex2bn (String.ofList l)=some (hexNumber l : Int) := by
  have hplain : ∀ l',l≠ '-'::l' := by
    intro l' hl
    have hminus : (hexDigit '-').isSome := hhex '-' (by simp [hl])
    cases hminus
  -- the first digit is no sign, so the unsigned branch is the one taken
  simp only [bnHex2bn,String.toList_ofList]
  rw [unsignedHex_of_digits hne hhex]
  rfl

/-- The serial of a row is read back from its spelling, whatever its sign. -/
theorem bnHex2bn_serialHex (n : Int) : bnHex2bn (serialHex n)=some n := by
  obtain ⟨l,hne,hhex,hval,hlist⟩ := bnBn2hex_toList n
  simp only [serialHex,canonicalSerial,if_neg (bnBn2hex_ne n),hlist]
  by_cases hneg : n<0
  · rw [if_pos hneg,List.dropWhile_cons_of_neg (by decide)]
    simp only [bnHex2bn,String.toList_ofList]
    rw [unsignedHex_of_digits hne hhex,hval]
    simp only [Option.map_some,Option.some.injEq,Int.negOfNat_eq,Int.ofNat_eq_natCast]
    omega
  · rw [if_neg hneg]
    have hdrop := hexNumber_dropWhile l
    have habs : (n.natAbs : Int)=n := by omega
    cases hrest : l.dropWhile (· = '0') with
    | nil =>
      have hzero : n=0 := by
        rw [hrest,hval] at hdrop
        have h0 : hexNumber []=0 := rfl
        omega
      subst hzero
      decide
    | cons c rest =>
      have hsub : ∀ d∈c::rest,(hexDigit d).isSome := by
        intro d hd
        apply hhex d
        apply (List.dropWhile_suffix (· = '0')).subset
        rwa [hrest]
      rw [hrest] at hdrop
      rw [bnHex2bn_of_digits (by simp) hsub,hdrop,hval,habs]

theorem serialHex_injective {n m : Int} (h : serialHex n=serialHex m) : n=m := by
  have hn := bnHex2bn_serialHex n
  rw [h,bnHex2bn_serialHex] at hn
  exact (Option.some.inj hn).symm

end FastPki.Crl
