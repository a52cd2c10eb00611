import Mathlib.Data.List.TakeDrop
import Mathlib.Tactic.IntervalCases

namespace FastPki

/-- The bits of an octet, the most significant first. -/
def octetBits (c : UInt8) : List Bool := (List.range 8).map c.toBitVec.getMsbD

def bitsOf (bytes : List UInt8) : List Bool := bytes.flatMap octetBits

@[simp]
theorem length_octetBits (c : UInt8) : (octetBits c).length=8 := by
  rw [octetBits,List.length_map,List.length_range]

@[simp]
theorem bitsOf_nil : bitsOf []=[] := rfl

@[simp]
theorem bitsOf_cons (c : UInt8) (bytes : List UInt8) :
    bitsOf (c::bytes)=octetBits c++bitsOf bytes := rfl

theorem take_octetBits_eq_iff {r : Nat} (hr : r≤8) {x y : UInt8} :
    (octetBits x).take r=(octetBits y).take r ↔
      ∀ i < r,x.toBitVec.getMsbD i=y.toBitVec.getMsbD i := by
  rw [octetBits,octetBits,← List.map_take,← List.map_take,List.take_range,Nat.min_eq_left hr,
    List.map_inj_left]
  simp only [List.mem_range]

theorem getMsbD_mask {r i : Nat} (hpos : 0<r) (hr : r≤8) (hi : i<8) :
    ((0xff : UInt8) <<< UInt8.ofNat (8-r)).toBitVec.getMsbD i=decide (i < r) := by
  interval_cases r <;> interval_cases i <;> rfl

theorem octetBits_injective : Function.Injective octetBits := by
  intro x y h
  apply UInt8.toBitVec_inj.mp
  apply BitVec.eq_of_getMsbD_eq
  have htake := congrArg (List.take 8) h
  exact (take_octetBits_eq_iff le_rfl).mp htake

/-- A mask of the high bits compares just these. -/
theorem and_mask_eq_iff {r : Nat} (hpos : 0<r) (hr : r≤8) (x y : UInt8) :
    x &&& (0xff <<< UInt8.ofNat (8-r)) = y &&& (0xff <<< UInt8.ofNat (8-r)) ↔
      (octetBits x).take r=(octetBits y).take r := by
  rw [take_octetBits_eq_iff hr,← UInt8.toBitVec_inj,UInt8.toBitVec_and,UInt8.toBitVec_and]
  constructor
  · intro h i hir
    have hbit := congrArg (fun b => b.getMsbD i) h
    simpa only [BitVec.getMsbD_and,getMsbD_mask hpos hr (by omega : i<8),hir,decide_true,
      Bool.and_true] using hbit
  · intro h
    apply BitVec.eq_of_getMsbD_eq
    intro i hi
    rw [BitVec.getMsbD_and,BitVec.getMsbD_and,getMsbD_mask hpos hr hi]
    by_cases hir : i < r
    · rw [h i hir]
    · simp [hir]

theorem take_bitsOf_cons_of_lt {p : Nat} (hp : p<8) (c : UInt8) (bytes : List UInt8) :
    (bitsOf (c::bytes)).take p=(octetBits c).take p := by
  rw [bitsOf_cons,List.take_append_of_le_length]
  rw [length_octetBits]
  omega

theorem take_bitsOf_cons (q : Nat) (c : UInt8) (bytes : List UInt8) :
    (bitsOf (c::bytes)).take (8+q)=octetBits c++(bitsOf bytes).take q := by
  rw [bitsOf_cons,List.take_append,length_octetBits,List.take_of_length_le (by simp),
    Nat.add_sub_cancel_left]

theorem octetBits_append_inj {c d : UInt8} {u v : List Bool} :
    octetBits c++u=octetBits d++v ↔ c=d ∧ u=v := by
  constructor
  · intro h
    obtain ⟨hcd,huv⟩ := List.append_inj h (by simp)
    exact ⟨octetBits_injective hcd,huv⟩
  · rintro ⟨rfl,rfl⟩
    rfl

/-- Whole octets first, then the high bits of the one after. -/
theorem take_bitsOf_eq_iff {p : Nat} {x y : List UInt8} (hlen : x.length=y.length) :
    (bitsOf x).take p=(bitsOf y).take p ↔
      x.take (p/8)=y.take (p/8) ∧
        (octetBits (x.getD (p/8) 0)).take (p%8)=(octetBits (y.getD (p/8) 0)).take (p%8) := by
  induction x generalizing y p with
  | nil =>
    rw [List.length_eq_zero_iff.mp hlen.symm]
    simp
  | cons c x ih =>
    cases y with
    | nil => cases hlen
    | cons d y =>
      have hlen : x.length=y.length := Nat.succ_inj.mp hlen
      by_cases hp : p<8
      · have hdiv : p/8=0 := Nat.div_eq_of_lt hp
        have hmod : p%8=p := Nat.mod_eq_of_lt hp
        rw [take_bitsOf_cons_of_lt hp,take_bitsOf_cons_of_lt hp,hdiv,hmod]
        simp
      · obtain ⟨q,rfl⟩ : ∃ q,p=8+q := ⟨p-8,by omega⟩
        have hdiv : (8+q)/8=q/8+1 := by omega
        have hmod : (8+q)%8=q%8 := by omega
        rw [take_bitsOf_cons,take_bitsOf_cons,hdiv,hmod,octetBits_append_inj,ih hlen,
          List.take_succ_cons,List.take_succ_cons,List.cons.injEq,List.getD_cons_succ,
          List.getD_cons_succ,and_assoc]

end FastPki
