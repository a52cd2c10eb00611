import Mathlib.Tactic.Common

namespace FastPki

universe u

variable {ε : Type*} {α β : Type u}

/-- A computation that returned has returned at each of its steps. -/
theorem bind_eq_ok_iff {x : Except ε α} {f : α → Except ε β} {b : β} :
    (x >>= f)=.ok b ↔ ∃ a,x=.ok a ∧ f a=.ok b := by
  cases x with
  | error e =>
    constructor
    · intro h
      cases h
    · intro h
      obtain ⟨a,ha,_⟩ := h
      cases ha
  | ok a =>
    constructor
    · intro h
      exact ⟨a,rfl,h⟩
    · intro h
      obtain ⟨a',ha,hb⟩ := h
      obtain rfl := Except.ok.inj ha
      exact hb

theorem map_bind_except {γ : Type u} {x : Except ε α} {f : α → Except ε β} {g : β → γ} :
    (x >>= f).map g=x >>= fun a => (f a).map g := by
  cases x with
  | error e => rfl
  | ok a => rfl

theorem map_eq_ok_iff {x : Except ε α} {f : α → β} {b : β} :
    x.map f=.ok b ↔ ∃ a,x=.ok a ∧ f a=b := by
  cases x with
  | error e => simp [Except.map]
  | ok a => simp [Except.map]

def refuseIf {ε : Type*} (c : Prop) [Decidable c] (e : ε) : Except ε Unit :=
  if c then .error e else .ok ()

theorem refuseIf_congr {ε : Type*} {c c' : Prop} [Decidable c] [Decidable c'] {e : ε}
    (h : c ↔ c') : refuseIf c e=refuseIf c' e := by
  simp only [refuseIf]
  split_ifs with hc hc' hc'
  · rfl
  · exact absurd (h.mp hc) hc'
  · exact absurd (h.mpr hc') hc
  · rfl

theorem refuseIf_eq_ok_iff {ε : Type*} {c : Prop} [Decidable c] {e : ε} {u : Unit} :
    refuseIf c e=.ok u ↔ ¬c := by
  simp only [refuseIf]
  split_ifs with h
  · simp [h]
  · simp [h]

def requireSome {ε : Type*} (x : Option α) (e : ε) : Except ε α :=
  x.elim (.error e) .ok

theorem requireSome_eq_ok_iff {ε : Type*} {x : Option α} {e : ε} {a : α} :
    requireSome x e=.ok a ↔ x=some a := by
  cases x with
  | none => simp [requireSome]
  | some b => simp [requireSome]

theorem mapError_eq_ok_iff {ε ε' : Type*} {x : Except ε α} {f : ε → ε'} {a : α} :
    x.mapError f=.ok a ↔ x=.ok a := by
  cases x with
  | error e => simp [Except.mapError]
  | ok b => simp [Except.mapError]

/-- Every error that the computation can end in satisfies `P`. -/
def Refuses {α : Type*} (P : ε → Prop) (x : Except ε α) : Prop := ∀ e,x=.error e → P e

theorem Refuses.ok {P : ε → Prop} {a : α} : Refuses P (.ok a : Except ε α) := by
  intro e h
  cases h

theorem Refuses.bind {P : ε → Prop} {x : Except ε α} {f : α → Except ε β} (hx : Refuses P x)
    (hf : ∀ a,Refuses P (f a)) : Refuses P (x >>= f) := by
  intro e h
  cases x with
  | error e' =>
    obtain rfl := Except.error.inj h
    exact hx e' rfl
  | ok a => exact hf a e h

theorem Refuses.refuseIf {P : ε → Prop} {c : Prop} [Decidable c] {e : ε} (h : P e) :
    Refuses P (refuseIf c e) := by
  intro e' he
  simp only [FastPki.refuseIf] at he
  split_ifs at he with hc
  obtain rfl := Except.error.inj he
  exact h

theorem Refuses.requireSome {P : ε → Prop} {x : Option α} {e : ε} (h : P e) :
    Refuses P (requireSome x e) := by
  intro e' he
  cases x with
  | none =>
    obtain rfl := Except.error.inj he
    exact h
  | some a => cases he

theorem Refuses.mapError {ε' : Type*} {P : ε → Prop} {x : Except ε' α} {f : ε' → ε}
    (h : ∀ e,P (f e)) : Refuses P (x.mapError f) := by
  intro e he
  cases x with
  | error e' =>
    obtain rfl := Except.error.inj he
    exact h e'
  | ok a => cases he

/-- A loop that returned has accepted every element. -/
theorem forM_eq_ok_iff {ε α : Type*} {l : List α} {f : α → Except ε Unit} :
    l.forM f=.ok () ↔ ∀ x∈l,f x=.ok () := by
  induction l with
  | nil => simp [pure,Except.pure]
  | cons a l ih =>
    change (f a >>= fun _ => l.forM f)=.ok () ↔ _
    rw [bind_eq_ok_iff]
    constructor
    · intro h
      obtain ⟨u,ha,hl⟩ := h
      exact List.forall_mem_cons.mpr ⟨ha,ih.mp hl⟩
    · intro h
      obtain ⟨ha,hl⟩ := List.forall_mem_cons.mp h
      exact ⟨(),ha,ih.mpr hl⟩

/-- A pass that succeeds has a result for each element, and no other. -/
theorem mapM_ok_mem {α β ε : Type} {f : α → Except ε β} {l : List α} {bs : List β}
    (h : l.mapM f=.ok bs) :
    (∀ a∈l,∃ b∈bs,f a=.ok b) ∧ ∀ b∈bs,∃ a∈l,f a=.ok b := by
  induction l generalizing bs with
  | nil =>
    obtain rfl : []=bs := Except.ok.inj h
    simp
  | cons a l ih =>
    rw [List.mapM_cons] at h
    obtain ⟨b,hb,h⟩ := bind_eq_ok_iff.mp h
    obtain ⟨bs',hbs',h⟩ := bind_eq_ok_iff.mp h
    obtain rfl := Except.ok.inj h
    obtain ⟨hall,hback⟩ := ih hbs'
    constructor
    · intro x hx
      obtain rfl|hx := List.mem_cons.mp hx
      · exact ⟨b,List.mem_cons_self,hb⟩
      · obtain ⟨y,hy,hf⟩ := hall x hx
        exact ⟨y,List.mem_cons_of_mem _ hy,hf⟩
    · intro y hy
      obtain rfl|hy := List.mem_cons.mp hy
      · exact ⟨a,List.mem_cons_self,hb⟩
      · obtain ⟨x,hx,hf⟩ := hback y hy
        exact ⟨x,List.mem_cons_of_mem _ hx,hf⟩

end FastPki
