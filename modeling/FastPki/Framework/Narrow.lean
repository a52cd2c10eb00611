import Mathlib.Tactic.Ring

namespace FastPki

/-- An unsigned value cast to `int`, of 32 bits. -/
def intOf (n : Nat) : Int := if n%2^32 < 2^31 then (n%2^32 : Nat) else (n%2^32 : Nat)-2^32

theorem intOf_of_lt {n : Nat} (h : n < 2^31) : intOf n=n := by
  have hmod : n%2^32=n := Nat.mod_eq_of_lt (by omega)
  rw [intOf,hmod,if_pos h]

/-- What a signed type of `w` bits holds. -/
def InInt (w : Nat) (n : Int) : Prop := -2^(w-1) ≤ n ∧ n < 2^(w-1)

/-- A value cast to a signed type of `w` bits. -/
def narrow (w : Nat) (n : Int) : Int := n.bmod (2^w)

theorem narrow_of_inInt {w : Nat} {n : Int} (hw : 0<w) (h : InInt w n) : narrow w n=n := by
  obtain ⟨v,rfl⟩ := Nat.exists_eq_succ_of_ne_zero hw.ne'
  obtain ⟨hlow,hhigh⟩ := h
  rw [Nat.succ_sub_one] at hlow hhigh
  have hdouble : ((2^(v+1) : Nat) : Int)=2*2^v := by
    push_cast
    ring
  apply Int.bmod_eq_of_le_mul_two
  · rw [hdouble]
    omega
  · rw [hdouble]
    omega

end FastPki
