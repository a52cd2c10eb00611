import Mathlib.Algebra.Group.Nat.Defs
import Mathlib.Tactic.Common

namespace FastPki

/-- Octets cut into groups of six bits. The last group is filled up with zeros. -/
def sextets : List UInt8 → List Nat
  | [] => []
  | [a] => [a.toNat/4,a.toNat%4*16]
  | [a,b] => [a.toNat/4,a.toNat%4*16+b.toNat/16,b.toNat%16*4]
  | a::b::c::rest => a.toNat/4::(a.toNat%4*16+b.toNat/16)::(b.toNat%16*4+c.toNat/64)::
      c.toNat%64::sextets rest

/-- Bits that make up no octet yet: how many they are and the number they spell. -/
structure Pending where
  bits : Nat
  value : Nat

def Pending.empty : Pending := ⟨0,0⟩

/-- One sextet more: the octet that it completes, if any, and the bits left. -/
def Pending.push (p : Pending) (v : Nat) : List UInt8 × Pending :=
  if p.bits+6 < 8 then ([],⟨p.bits+6,p.value*64+v⟩)
  else ([UInt8.ofNat ((p.value*64+v)/2^(p.bits-2))],⟨p.bits-2,(p.value*64+v)%2^(p.bits-2)⟩)

/-- The octets that sextets complete. -/
def Pending.complete : Pending → List Nat → List UInt8
  | _,[] => []
  | p,v::vs => (p.push v).1++(p.push v).2.complete vs

def octetsOfSextets (vs : List Nat) : List UInt8 := Pending.empty.complete vs

/-- The last sextet is needed, and its bits that make up no octet are zeros. -/
def Canonical (vs : List Nat) : Prop :=
  vs.length%4≠1 ∧ ∀ v∈vs.getLast?,v%2^(6*vs.length%8)=0

theorem Pending.push_short {p : Pending} (h : p.bits+6<8) (v : Nat) :
    p.push v=([],⟨p.bits+6,p.value*64+v⟩) :=
  if_pos h

theorem Pending.push_full {p : Pending} (h : 8 ≤ p.bits+6) (v : Nat) : p.push v=
    ([UInt8.ofNat ((p.value*64+v)/2^(p.bits-2))],⟨p.bits-2,(p.value*64+v)%2^(p.bits-2)⟩) := by
  have hnot : ¬p.bits+6<8 := by omega
  exact if_neg hnot

theorem sextets_lt (b : List UInt8) : ∀ v∈sextets b,v<64 := by
  induction b using sextets.induct with
  | case1 =>
    intro v hv
    cases hv
  | case2 a =>
    have ha := a.toNat_lt
    simp only [sextets,List.forall_mem_cons]
    refine ⟨by omega,by omega,?_⟩
    simp
  | case3 a b =>
    have ha := a.toNat_lt
    have hb := b.toNat_lt
    simp only [sextets,List.forall_mem_cons]
    refine ⟨by omega,by omega,by omega,?_⟩
    simp
  | case4 a b c rest ih =>
    have ha := a.toNat_lt
    have hb := b.toNat_lt
    have hc := c.toNat_lt
    simp only [sextets,List.forall_mem_cons]
    exact ⟨by omega,by omega,by omega,by omega,ih⟩

section complete

variable (u v : Nat) (vs : List Nat)

theorem complete_empty : Pending.empty.complete (v::vs)=(⟨6,v⟩ : Pending).complete vs := by
  simp [Pending.complete,Pending.push,Pending.empty]

theorem complete_six : (⟨6,u⟩ : Pending).complete (v::vs)=
    UInt8.ofNat (u*4+v/16)::(⟨4,v%16⟩ : Pending).complete vs := by
  have hdiv : (u*64+v)/16=u*4+v/16 := by omega
  have hmod : (u*64+v)%16=v%16 := by omega
  simp [Pending.complete,Pending.push,hdiv,hmod]

theorem complete_four : (⟨4,u⟩ : Pending).complete (v::vs)=
    UInt8.ofNat (u*16+v/4)::(⟨2,v%4⟩ : Pending).complete vs := by
  have hdiv : (u*64+v)/4=u*16+v/4 := by omega
  have hmod : (u*64+v)%4=v%4 := by omega
  simp [Pending.complete,Pending.push,hdiv,hmod]

theorem complete_two : (⟨2,u⟩ : Pending).complete (v::vs)=
    UInt8.ofNat (u*64+v)::Pending.empty.complete vs := by
  simp [Pending.complete,Pending.push,Pending.empty,Nat.mod_one]

end complete

/-- Four sextets leave no bits over. -/
theorem octetsOfSextets_group (v w x y : Nat) (rest : List Nat) :
    octetsOfSextets (v::w::x::y::rest)=UInt8.ofNat (v*4+w/16)::UInt8.ofNat (w%16*16+x/4)::
      UInt8.ofNat (x%4*64+y)::octetsOfSextets rest := by
  rw [octetsOfSextets,complete_empty,complete_six,complete_four,complete_two,octetsOfSextets]

theorem octetsOfSextets_three (v w x : Nat) : octetsOfSextets [v,w,x]=
    [UInt8.ofNat (v*4+w/16),UInt8.ofNat (w%16*16+x/4)] := by
  rw [octetsOfSextets,complete_empty,complete_six,complete_four,Pending.complete]

theorem octetsOfSextets_two (v w : Nat) : octetsOfSextets [v,w]=[UInt8.ofNat (v*4+w/16)] := by
  rw [octetsOfSextets,complete_empty,complete_six,Pending.complete]

theorem octetsOfSextets_one (v : Nat) : octetsOfSextets [v]=[] := by
  rw [octetsOfSextets,complete_empty,Pending.complete]

theorem ofNat_eq_of_toNat_eq {n : Nat} {a : UInt8} (h : n=a.toNat) : UInt8.ofNat n=a := by
  rw [h,UInt8.ofNat_toNat]

theorem octetsOfSextets_sextets (b : List UInt8) : octetsOfSextets (sextets b)=b := by
  induction b using sextets.induct with
  | case1 => rfl
  | case2 a =>
    have ha : UInt8.ofNat (a.toNat/4*4+a.toNat%4*16/16)=a := by
      apply ofNat_eq_of_toNat_eq
      omega
    rw [sextets,octetsOfSextets_two,ha]
  | case3 a b =>
    have hb' := b.toNat_lt
    have ha : UInt8.ofNat (a.toNat/4*4+(a.toNat%4*16+b.toNat/16)/16)=a := by
      apply ofNat_eq_of_toNat_eq
      omega
    have hb : UInt8.ofNat ((a.toNat%4*16+b.toNat/16)%16*16+b.toNat%16*4/4)=b := by
      apply ofNat_eq_of_toNat_eq
      omega
    rw [sextets,octetsOfSextets_three,ha,hb]
  | case4 a b c rest ih =>
    have hb' := b.toNat_lt
    have hc' := c.toNat_lt
    have ha : UInt8.ofNat (a.toNat/4*4+(a.toNat%4*16+b.toNat/16)/16)=a := by
      apply ofNat_eq_of_toNat_eq
      omega
    have hb : UInt8.ofNat ((a.toNat%4*16+b.toNat/16)%16*16+(b.toNat%16*4+c.toNat/64)/4)=b := by
      apply ofNat_eq_of_toNat_eq
      omega
    have hc : UInt8.ofNat ((b.toNat%16*4+c.toNat/64)%4*64+c.toNat%64)=c := by
      apply ofNat_eq_of_toNat_eq
      omega
    rw [sextets,octetsOfSextets_group,ha,hb,hc,ih]

theorem toNat_ofNat {n : Nat} (h : n<256) : (UInt8.ofNat n).toNat=n := by
  apply UInt8.toNat_ofNat_of_lt'
  exact h

theorem canonical_group {v w x y : Nat} {rest : List Nat} :
    Canonical (v::w::x::y::rest) ↔ Canonical rest := by
  have hlength : (v::w::x::y::rest).length=rest.length+4 := rfl
  have hmod : (rest.length+4)%4=rest.length%4 := by omega
  have hbits : 6*(rest.length+4)%8=6*rest.length%8 := by omega
  rw [Canonical,Canonical,hlength,hmod,hbits]
  cases rest with
  | nil => simp [Nat.mod_one]
  | cons u rest => rw [List.getLast?_cons_cons,List.getLast?_cons_cons,List.getLast?_cons_cons,
      List.getLast?_cons_cons]

/-- What sextets decode to gives them back when they are written canonically, and only then. -/
theorem sextets_octetsOfSextets_iff :
    ∀ {vs : List Nat},(∀ v∈vs,v<64) → (sextets (octetsOfSextets vs)=vs ↔ Canonical vs)
  | [],_ => by simp [sextets,Canonical,octetsOfSextets,Pending.complete]
  | [v],_ => by simp [octetsOfSextets_one,sextets,Canonical]
  | [v,w],h => by
    have hv : v<64 := h v (by simp)
    have hw : w<64 := h w (by simp)
    have hone : (UInt8.ofNat (v*4+w/16)).toNat=v*4+w/16 := toNat_ofNat (by omega)
    have hiff : [(v*4+w/16)/4,(v*4+w/16)%4*16]=[v,w] ↔ w%16=0 := by
      simp only [List.cons.injEq,and_true]
      omega
    rw [octetsOfSextets_two,sextets,hone,hiff]
    simp [Canonical]
  | [v,w,x],h => by
    have hv : v<64 := h v (by simp)
    have hw : w<64 := h w (by simp)
    have hx : x<64 := h x (by simp)
    have hone : (UInt8.ofNat (v*4+w/16)).toNat=v*4+w/16 := toNat_ofNat (by omega)
    have htwo : (UInt8.ofNat (w%16*16+x/4)).toNat=w%16*16+x/4 := toNat_ofNat (by omega)
    have hiff : [(v*4+w/16)/4,(v*4+w/16)%4*16+(w%16*16+x/4)/16,(w%16*16+x/4)%16*4]=[v,w,x] ↔
        x%4=0 := by
      simp only [List.cons.injEq,and_true]
      omega
    rw [octetsOfSextets_three,sextets,hone,htwo,hiff]
    simp [Canonical]
  | v::w::x::y::rest,h => by
    have hv : v<64 := h v (by simp)
    have hw : w<64 := h w (by simp)
    have hx : x<64 := h x (by simp)
    have hy : y<64 := h y (by simp)
    have hrest : ∀ u∈rest,u<64 := fun u hu => h u (by simp [hu])
    have hone : (UInt8.ofNat (v*4+w/16)).toNat=v*4+w/16 := toNat_ofNat (by omega)
    have htwo : (UInt8.ofNat (w%16*16+x/4)).toNat=w%16*16+x/4 := toNat_ofNat (by omega)
    have hthree : (UInt8.ofNat (x%4*64+y)).toNat=x%4*64+y := toNat_ofNat (by omega)
    have hv' : (v*4+w/16)/4=v := by omega
    have hw' : (v*4+w/16)%4*16+(w%16*16+x/4)/16=w := by omega
    have hx' : (w%16*16+x/4)%16*4+(x%4*64+y)/64=x := by omega
    have hy' : (x%4*64+y)%64=y := by omega
    rw [octetsOfSextets_group,sextets,hone,htwo,hthree,hv',hw',hx',hy',canonical_group,
      ← sextets_octetsOfSextets_iff hrest]
    simp only [List.cons.injEq,true_and]

end FastPki
