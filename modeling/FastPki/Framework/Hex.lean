import FastPki.Framework.Ascii
import Mathlib.Tactic.IntervalCases
import Mathlib.Tactic.SplitIfs

namespace FastPki.Hex

/-- A digit of `"0123456789abcdef"`. -/
def digit (n : Nat) : UInt8 := if n < 10 then UInt8.ofNat (0x30+n) else UInt8.ofNat (0x57+n)

/-- Two digits for each octet, the high one first. -/
def encode (s : List UInt8) : List UInt8 :=
  s.flatMap fun b => [digit (b.toNat/16),digit (b.toNat%16)]

/-- A digit is read in either letter case. -/
def value (c : UInt8) : Option Nat :=
  if Ascii.isDigit c then some (c.toNat-0x30)
  else if 0x61 ≤ c ∧ c ≤ 0x66 then some (c.toNat-0x61+10)
  else if 0x41 ≤ c ∧ c ≤ 0x46 then some (c.toNat-0x41+10)
  else none

/-- An odd digit and a character that is none spoil the whole. -/
def decode : List UInt8 → Option (List UInt8)
  | [] => some []
  | [_] => none
  | hi::lo::rest => do
    let h ← value hi
    let l ← value lo
    let tail ← decode rest
    return UInt8.ofNat (16*h+l)::tail

theorem value_digit {n : Nat} (h : n < 16) : value (digit n)=some n := by
  interval_cases n <;> decide

theorem decode_encode (s : List UInt8) : decode (encode s)=some s := by
  induction s with
  | nil => rfl
  | cons b s ih =>
    have hb : b.toNat < 256 := b.toNat_lt
    have hhi : value (digit (b.toNat/16))=some (b.toNat/16) := value_digit (by omega)
    have hlo : value (digit (b.toNat%16))=some (b.toNat%16) := value_digit (by omega)
    have hoctet : UInt8.ofNat (16*(b.toNat/16)+b.toNat%16)=b := by
      rw [Nat.div_add_mod]
      exact UInt8.ofNat_toNat
    change decode (digit (b.toNat/16)::digit (b.toNat%16)::encode s)=_
    rw [decode,hhi,hlo,ih]
    simp only [Option.bind_eq_bind,Option.bind_some,Option.pure_def,hoctet]

@[simp]
theorem length_encode (s : List UInt8) : (encode s).length=2*s.length := by
  induction s with
  | nil => rfl
  | cons b s ih =>
    change (digit (b.toNat/16)::digit (b.toNat%16)::encode s).length=_
    simp only [List.length_cons,ih]
    omega

/-- What is written is digits only. -/
theorem value_of_mem_encode {s : List UInt8} {c : UInt8} (h : c∈encode s) : (value c).isSome=true := by
  obtain ⟨b,_,hc⟩ := List.mem_flatMap.mp h
  have hb : b.toNat < 256 := b.toNat_lt
  obtain rfl|hc := List.mem_cons.mp hc
  · rw [value_digit (by omega)]
    rfl
  · rw [List.mem_singleton.mp hc,value_digit (by omega)]
    rfl

end FastPki.Hex
