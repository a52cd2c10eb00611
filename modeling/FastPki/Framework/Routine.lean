import Mathlib.Tactic.Common

namespace FastPki

/-- A routine returns (`true`) or throws (`false`) and leaves a state either way. -/
def Routine (σ : Type*) := σ → Bool × σ

namespace Routine

variable {σ : Type*} {P Q R E : σ → Prop} {c d : Routine σ}

def andThen (c d : Routine σ) : Routine σ := fun s =>
  let r := c s
  if r.1 then d r.2 else (false,r.2)

/-- One after the other, up to the first that throws. -/
def each (cs : List (Routine σ)) : Routine σ := cs.foldr andThen fun s => (true,s)

/-- What it throws is not looked at. -/
def ignored (c : Routine σ) : Routine σ := fun s => (true,(c s).2)

/-- `try c catch (...) { d; throw; }` -/
def rescue (c d : Routine σ) : Routine σ := fun s =>
  let r := c s
  if r.1 then r else (false,(d r.2).2)

/-- The attempts that are left. Where the state allows another one, it is made ready for that. -/
def retry (c : Routine σ) (again : σ → Bool) (ready : σ → σ) : Nat → Routine σ
  | 0 => fun s => (false,s)
  | left+1 => fun s =>
    let r := c s
    if r.1 then r
    else if again r.2 ∧ left ≠ 0 then retry c again ready left (ready r.2)
    else (false,r.2)

/-- From `P` the routine returns in `Q` or throws in `E`. -/
def Meets (P : σ → Prop) (c : Routine σ) (Q E : σ → Prop) : Prop :=
  ∀ s,P s → if (c s).1 then Q (c s).2 else E (c s).2

theorem each_cons (c : Routine σ) (cs : List (Routine σ)) : each (c::cs)=c.andThen (each cs) := rfl

theorem andThen_returns {s t : σ} (h : c s=(true,t)) : c.andThen d s=d t := by
  simp [andThen,h]

theorem andThen_assoc (b c d : Routine σ) : (b.andThen c).andThen d=b.andThen (c.andThen d) := by
  funext s
  by_cases hr : (b s).1=true
  · simp [andThen,hr]
  · simp [andThen,hr]

theorem each_append (cs ds : List (Routine σ)) : each (cs++ds)=(each cs).andThen (each ds) := by
  induction cs with
  | nil => rfl
  | cons c cs ih => rw [List.cons_append,each_cons,each_cons,andThen_assoc,ih]

theorem each_singleton (c : Routine σ) : each [c]=c := by
  funext s
  rw [each_cons,andThen]
  cases hc : c s with
  | mk returned t =>
    cases returned with
    | true => rfl
    | false => rfl

theorem each_returns {α : Type*} {l : List α} {r : α → Routine σ} {f : α → σ → σ}
    (h : ∀ x∈l,∀ s,r x s=(true,f x s)) (s : σ) :
    each (l.map r) s=(true,l.foldl (fun s x => f x s) s) := by
  induction l generalizing s with
  | nil => rfl
  | cons x l ih =>
    have hfirst : r x s=(true,f x s) := h x List.mem_cons_self s
    rw [List.map_cons,each_cons,andThen_returns hfirst]
    exact ih (fun y hy => h y (List.mem_cons_of_mem x hy)) _

theorem Meets.andThen (hc : Meets P c R E) (hd : Meets R d Q E) : Meets P (c.andThen d) Q E := by
  intro s hs
  have hmid := hc s hs
  by_cases hr : (c s).1=true
  · rw [if_pos hr] at hmid
    have hend := hd _ hmid
    simpa only [Routine.andThen,if_pos hr] using hend
  · rw [if_neg hr] at hmid
    simpa [Routine.andThen,hr] using hmid

theorem Meets.each {cs : List (Routine σ)} (h : ∀ c∈cs,Meets P c P E) : Meets P (each cs) P E := by
  induction cs with
  | nil =>
    intro s hs
    exact hs
  | cons c cs ih =>
    have hfirst : Meets P c P E := h c List.mem_cons_self
    exact hfirst.andThen (ih fun d hd => h d (List.mem_cons_of_mem _ hd))

theorem Meets.each_append {cs ds : List (Routine σ)} (hc : Meets P (Routine.each cs) R E)
    (hd : Meets R (Routine.each ds) Q E) : Meets P (Routine.each (cs++ds)) Q E := by
  induction cs generalizing P with
  | nil => exact fun s hs => hd s (hc s hs)
  | cons c cs ih =>
    rw [each_cons] at hc
    have hfirst : Meets P c (fun t => ∃ s,P s ∧ c s=(true,t)) E := by
      intro s hs
      have hmid := hc s hs
      by_cases hr : (c s).1=true
      · rw [if_pos hr]
        exact ⟨s,hs,Prod.ext hr rfl⟩
      · rw [if_neg hr]
        simpa [Routine.andThen,hr] using hmid
    refine hfirst.andThen (ih ?_)
    intro t ht
    obtain ⟨s,hs,hst⟩ := ht
    simpa [Routine.andThen,hst] using hc s hs

theorem Meets.ignored (hc : Meets P c Q Q) : Meets P c.ignored Q E := by
  intro s hs
  have hend := hc s hs
  simpa [Routine.ignored] using hend

theorem Meets.rescue {T : σ → Prop} (hc : Meets P c Q E) (hd : Meets E d T T) :
    Meets P (c.rescue d) Q T := by
  intro s hs
  have hmid := hc s hs
  by_cases hr : (c s).1=true
  · rw [if_pos hr] at hmid
    simpa [Routine.rescue,hr] using hmid
  · rw [if_neg hr] at hmid
    have hend := hd _ hmid
    simpa [Routine.rescue,hr] using hend

theorem retry_returns {again : σ → Bool} {ready : σ → σ} {s : σ} (h : (c s).1=true) (left : Nat) :
    c.retry again ready (left+1) s=c s := by
  simp [retry,h]

theorem Meets.retry {again : σ → Bool} {ready : σ → σ} (hc : Meets P c Q E) (hstart : ∀ s,P s → E s)
    (hready : ∀ s,E s → P (ready s)) (left : Nat) : Meets P (c.retry again ready left) Q E := by
  induction left with
  | zero => exact hstart
  | succ left ih =>
    intro s hs
    have hattempt := hc s hs
    by_cases hr : (c s).1=true
    · rw [retry_returns hr]
      exact hattempt
    · rw [if_neg hr] at hattempt
      by_cases hagain : again (c s).2=true ∧ left≠0
      · simpa only [Routine.retry,if_neg hr,if_pos hagain] using ih _ (hready _ hattempt)
      · simpa [Routine.retry,hr,hagain] using hattempt

theorem Meets.weaken {E' : σ → Prop} (hc : Meets P c Q E) (hE : ∀ s,E s → E' s) :
    Meets P c Q E' := by
  intro s hs
  have hend := hc s hs
  split_ifs at hend ⊢
  · exact hend
  · exact hE _ hend

theorem Meets.strengthen {Q' : σ → Prop} (hc : Meets P c Q E) (hQ : ∀ s,Q s → Q' s) :
    Meets P c Q' E := by
  intro s hs
  have hend := hc s hs
  split_ifs at hend ⊢
  · exact hQ _ hend
  · exact hend

end Routine

end FastPki
