import Mathlib.Algebra.Group.Nat.Defs
import Mathlib.Tactic.Common

namespace FastPki

/-- The last `width` digits of a number, leading zeros and all. -/
def fixedDigits (b : Nat) : Nat → Nat → List Char
  | 0,_ => []
  | width+1,n => fixedDigits b width (n/b)++[Nat.digitChar (n%b)]

variable {b : Nat}

@[simp] theorem length_fixedDigits (width n : Nat) : (fixedDigits b width n).length=width := by
  induction width generalizing n with
  | zero => rfl
  | succ width ih => simp [fixedDigits,ih]

theorem fixedDigits_zero (width : Nat) : fixedDigits b width 0=List.replicate width '0' := by
  induction width with
  | zero => rfl
  | succ width ih =>
    rw [fixedDigits,Nat.zero_div,Nat.zero_mod,ih,List.replicate_succ']
    rfl

/-- A number that fits is its digits, padded from the left. -/
theorem replicate_append_toDigits (hb : 1<b) {width n : Nat} (hw : 0<width) (h : n<b^width) :
    List.replicate (width-(Nat.toDigits b n).length) '0'++Nat.toDigits b n=
      fixedDigits b width n := by
  induction width generalizing n with
  | zero => omega
  | succ width ih =>
    by_cases hlt : n<b
    · have hdiv : n/b=0 := Nat.div_eq_of_lt hlt
      have hmod : n%b=n := Nat.mod_eq_of_lt hlt
      rw [Nat.toDigits_of_lt_base hlt,fixedDigits,hdiv,hmod,fixedDigits_zero]
      rfl
    · have hrest : n/b<b^width := by
        apply Nat.div_lt_of_lt_mul
        rw [Nat.pow_succ] at h
        rwa [Nat.mul_comm]
      have hpos : 0<width := by
        apply Nat.pos_of_ne_zero
        intro hzero
        subst hzero
        rw [Nat.zero_add,Nat.pow_one] at h
        exact hlt h
      have hlong := ih hpos hrest
      rw [Nat.toDigits_of_base_le hb (by omega),fixedDigits,← hlong,List.length_append,
        List.length_singleton,Nat.add_sub_add_right,List.append_assoc]

/-- The digits at the front are those of the quotient. -/
theorem take_fixedDigits (front rest n : Nat) :
    (fixedDigits b (front+rest) n).take front=fixedDigits b front (n/b^rest) := by
  induction rest generalizing n with
  | zero =>
    rw [Nat.add_zero,Nat.pow_zero,Nat.div_one]
    apply List.take_of_length_le
    exact Nat.le_of_eq (length_fixedDigits front n)
  | succ rest ih =>
    have hshort : front≤(fixedDigits b (front+rest) (n/b)).length := by
      rw [length_fixedDigits]
      omega
    rw [← Nat.add_assoc,fixedDigits,List.take_append_of_le_length hshort,ih,Nat.div_div_eq_div_mul,
      ← Nat.pow_succ']

theorem digitChar_injective {n m : Nat} (hn : n<16) (hm : m<16)
    (h : Nat.digitChar n=Nat.digitChar m) : n=m := by
  have hall : ∀ n<16,∀ m<16,Nat.digitChar n=Nat.digitChar m → n=m := by decide +kernel
  exact hall n hn m hm h

theorem fixedDigits_injective (hb : 0<b) (hsmall : b≤16) {width n m : Nat} (hn : n<b^width)
    (hm : m<b^width) (h : fixedDigits b width n=fixedDigits b width m) : n=m := by
  induction width generalizing n m with
  | zero =>
    rw [Nat.pow_zero] at hn hm
    omega
  | succ width ih =>
    rw [fixedDigits,fixedDigits] at h
    obtain ⟨hfront,hlast⟩ := List.append_inj' h rfl
    rw [Nat.pow_succ,Nat.mul_comm] at hn hm
    have hquot : n/b=m/b := ih (Nat.div_lt_of_lt_mul hn) (Nat.div_lt_of_lt_mul hm) hfront
    have hbelow : ∀ k,k%b<16 := fun k => Nat.lt_of_lt_of_le (Nat.mod_lt k hb) hsmall
    have hmod : n%b=m%b :=
      digitChar_injective (hbelow n) (hbelow m) (List.cons.inj hlast).1
    rw [← Nat.div_add_mod n b,← Nat.div_add_mod m b,hquot,hmod]

end FastPki
