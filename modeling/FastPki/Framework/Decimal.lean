import FastPki.Framework.Ascii
import FastPki.Framework.Digest

namespace FastPki

/-! Numbers written in decimal, and read as the C library reads them. -/

namespace Decimal

open Ascii

/-- `atoll`, as long as the number fits: blanks, a sign, and digits up to whatever follows them. -/
def atoll (s : List UInt8) : Int :=
  match s.dropWhile isSpace with
  | [] => 0
  | c::rest =>
    if c = 0x2d then -(value (rest.takeWhile isDigit) : Int)
    else if c = 0x2b then value (rest.takeWhile isDigit)
    else value ((c::rest).takeWhile isDigit)

/-- `std::stoi`. `none` is the exception: no digits, or a number beyond an `int`. -/
def stoi (s : List UInt8) : Option Int :=
  match s.dropWhile isSpace with
  | [] => none
  | c::rest =>
    let digits := (if c = 0x2d ∨ c = 0x2b then rest else c::rest).takeWhile isDigit
    let n : Int := if c = 0x2d then -(value digits : Int) else value digits
    if digits = [] then none else if -2147483648 ≤ n ∧ n ≤ 2147483647 then some n else none

/-- `std::to_string` -/
def text (n : Int) : List UInt8 :=
  if 0 ≤ n then decimal n.toNat else 0x2d::decimal (-n).toNat

theorem value_append (s : List UInt8) (c : UInt8) : value (s++[c])=10*value s+(c.toNat-0x30) := by
  simp [value]

theorem toNat_digitChar {d : Nat} (hd : d < 10) : (Nat.digitChar d).toNat=0x30+d := by
  have hall : ∀ e∈List.range 10,(Nat.digitChar e).toNat=0x30+e := by decide
  exact hall d (List.mem_range.mpr hd)

/-- The digits of a number, one octet each. -/
theorem decimal_eq (n : Nat) :
    decimal n=(Nat.toDigits 10 n).map fun c => UInt8.ofNat c.toNat := by
  have hchars : (toString n).toList=Nat.toDigits 10 n := Nat.toList_repr
  rw [decimal,toUTF8_eq_flatMap,hchars,List.map_eq_flatMap]
  apply List.flatMap_congr
  intro c hc
  have hdigit := Nat.isDigit_of_mem_toDigits (by decide) (by decide) hc
  have hlow : c.val.toNat ≤ 57 := by
    have := hdigit
    simp only [Char.isDigit,Bool.and_eq_true,decide_eq_true_eq,UInt32.le_iff_toNat_le] at this
    exact this.2
  have hsmall : c.val.toNat ≤ 127 := by omega
  simp only [String.utf8EncodeChar,hsmall,if_true]
  rfl

theorem decimal_spec (n : Nat) : value (decimal n)=n ∧ decimal n≠[] ∧
    ∀ c∈decimal n,isDigit c=true := by
  rw [decimal_eq]
  induction n using Nat.strongRecOn with
  | ind n ih =>
    rw [Nat.toDigits_eq_if (by decide)]
    have hone : ∀ d < 10,isDigit (UInt8.ofNat (Nat.digitChar d).toNat)=true ∧
        (UInt8.ofNat (Nat.digitChar d).toNat).toNat-0x30=d := by
      intro d hd
      rw [toNat_digitChar hd]
      have hall : ∀ e∈List.range 10,isDigit (UInt8.ofNat (0x30+e))=true ∧
          (UInt8.ofNat (0x30+e)).toNat-0x30=e := by decide
      exact hall d (List.mem_range.mpr hd)
    split_ifs with hlt
    · obtain ⟨hdigit,hval⟩ := hone n hlt
      refine ⟨?_,by simp,?_⟩
      · simpa [value] using hval
      · intro c hc
        rw [List.map_singleton,List.mem_singleton] at hc
        rw [hc]
        exact hdigit
    · obtain ⟨hvalue,hne,hdigits⟩ := ih (n/10) (by omega)
      obtain ⟨hdigit,hval⟩ := hone (n%10) (by omega)
      rw [List.map_append,List.map_singleton]
      refine ⟨?_,by simp,?_⟩
      · rw [value_append,hvalue,hval]
        omega
      · intro c hc
        obtain hc|hc := List.mem_append.mp hc
        · exact hdigits c hc
        · rw [List.mem_singleton.mp hc]
          exact hdigit

theorem digit_cases {c : UInt8} (h : isDigit c=true) :
    isSpace c=false ∧ c≠0x2d ∧ c≠0x2b := by
  have hall : ∀ n∈List.range 256,isDigit (UInt8.ofNat n)=true →
      isSpace (UInt8.ofNat n)=false ∧ UInt8.ofNat n≠0x2d ∧ UInt8.ofNat n≠0x2b := by
    decide +kernel
  have hc := hall c.toNat (List.mem_range.mpr c.toNat_lt)
  rw [UInt8.ofNat_toNat] at hc
  exact hc h

/-- What a printed number starts with: its first digit, or a minus sign. -/
theorem text_cases (n : Int) :
    (0 ≤ n ∧ ∃ c rest,text n=c::rest ∧ isDigit c=true ∧ (c::rest).takeWhile isDigit=c::rest ∧
      (value (c::rest) : Int)=n) ∨
    (n < 0 ∧ ∃ rest,text n=0x2d::rest ∧ rest≠[] ∧ rest.takeWhile isDigit=rest ∧
      -(value rest : Int)=n) := by
  have hread : ∀ m : Nat,(decimal m).takeWhile isDigit=decimal m :=
    fun m => List.takeWhile_eq_self_iff.mpr (decimal_spec m).2.2
  by_cases hn : 0 ≤ n
  · left
    obtain ⟨hvalue,hne,hdigits⟩ := decimal_spec n.toNat
    rw [text,if_pos hn]
    cases hd : decimal n.toNat with
    | nil => exact absurd hd hne
    | cons c rest =>
      have hself := hread n.toNat
      rw [hd] at hself hvalue
      refine ⟨hn,c,rest,rfl,hdigits c (hd ▸ List.mem_cons_self),hself,?_⟩
      rw [hvalue]
      omega
  · right
    obtain ⟨hvalue,hne,_⟩ := decimal_spec (-n).toNat
    refine ⟨by omega,decimal (-n).toNat,by rw [text,if_neg hn],hne,hread _,?_⟩
    rw [hvalue]
    omega

/-- A number that was printed reads back. -/
theorem atoll_text (n : Int) : atoll (text n)=n := by
  obtain ⟨_,c,rest,htext,hdigit,hself,hvalue⟩|⟨_,rest,htext,_,hself,hvalue⟩ := text_cases n
  · obtain ⟨hspace,hminus,hplus⟩ := digit_cases hdigit
    have hdrop : (c::rest).dropWhile isSpace=c::rest := by
      simp [hspace]
    rw [htext,atoll,hdrop]
    simp only
    rw [if_neg hminus,if_neg hplus,hself,hvalue]
  · have hdrop : (0x2d::rest).dropWhile isSpace=0x2d::rest := by
      rw [List.dropWhile_cons_of_neg (by decide)]
    rw [htext,atoll,hdrop]
    simp only [if_true,hself,hvalue]

theorem stoi_text {n : Int} (h : -2147483648 ≤ n ∧ n ≤ 2147483647) : stoi (text n)=some n := by
  obtain ⟨_,c,rest,htext,hdigit,hself,hvalue⟩|⟨_,rest,htext,hne,hself,hvalue⟩ := text_cases n
  · obtain ⟨hspace,hminus,hplus⟩ := digit_cases hdigit
    have hdrop : (c::rest).dropWhile isSpace=c::rest := by
      simp [hspace]
    have hsign : ¬(c=0x2d ∨ c=0x2b) := not_or.mpr ⟨hminus,hplus⟩
    rw [htext,stoi,hdrop]
    simp only [if_neg hsign,if_neg hminus,hself,hvalue,if_pos h]
    rw [if_neg (List.cons_ne_nil c rest)]
  · have hdrop : (0x2d::rest).dropWhile isSpace=0x2d::rest := by
      rw [List.dropWhile_cons_of_neg (by decide)]
    rw [htext,stoi,hdrop]
    simp only [true_or,if_true,hself,hvalue,if_pos h]
    rw [if_neg hne]

end Decimal

end FastPki
