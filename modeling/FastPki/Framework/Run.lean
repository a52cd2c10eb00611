import Mathlib.Tactic.Common

namespace FastPki

variable {σ α : Type*}

/-- A run applies its actions in order. An action that is not enabled leaves the state. -/
def run (step : σ → α → σ) (s : σ) (as : List α) : σ := as.foldl step s

@[simp] theorem run_nil (step : σ → α → σ) (s : σ) : run step s [] = s := rfl

@[simp] theorem run_cons (step : σ → α → σ) (s : σ) (a : α) (as : List α) :
    run step s (a::as) = run step (step s a) as := rfl

theorem run_append (step : σ → α → σ) (s : σ) (as bs : List α) :
    run step s (as++bs) = run step (run step s as) bs := List.foldl_append

/-- What every step keeps, holds after every run. -/
theorem run_invariant {step : σ → α → σ} {I : σ → Prop} (keep : ∀ s a,I s → I (step s a))
    {s : σ} (hs : I s) (as : List α) : I (run step s as) := by
  induction as generalizing s with
  | nil => exact hs
  | cons a as ih => exact ih (keep s a hs)

/-- Every action of the run meets `Q` in the state it is taken from. -/
def Along (step : σ → α → σ) (Q : σ → α → Prop) : σ → List α → Prop
  | _,[] => True
  | s,a::as => Q s a ∧ Along step Q (step s a) as

instance Along.decidable {step : σ → α → σ} {Q : σ → α → Prop} [∀ s a,Decidable (Q s a)] :
    (s : σ) → (as : List α) → Decidable (Along step Q s as)
  | _,[] => inferInstanceAs (Decidable True)
  | s,a::as => @instDecidableAnd (Q s a) (Along step Q (step s a) as) _ (Along.decidable (step s a) as)

/-- The induction rule for safety: what every step keeps under `Q` holds after the run. -/
theorem Along.invariant {step : σ → α → σ} {Q : σ → α → Prop} {I : σ → Prop}
    (keep : ∀ s a,I s → Q s a → I (step s a)) {s : σ} {as : List α}
    (ha : Along step Q s as) (hs : I s) : I (run step s as) := by
  induction as generalizing s with
  | nil => exact hs
  | cons a as ih => exact ih ha.2 (keep s a hs ha.1)

/-- What each step meets under an invariant, the steps of the whole run meet. -/
theorem Along.imp {step : σ → α → σ} {Q P : σ → α → Prop} {I : σ → Prop}
    (keep : ∀ s a,I s → Q s a → I (step s a)) (meet : ∀ s a,I s → Q s a → P s a) {s : σ}
    {as : List α} (ha : Along step Q s as) (hs : I s) : Along step P s as := by
  induction as generalizing s with
  | nil => trivial
  | cons a as ih => exact ⟨meet s a hs ha.1,ih ha.2 (keep s a hs ha.1)⟩

theorem along_append {step : σ → α → σ} {Q : σ → α → Prop} {s : σ} {as bs : List α} :
    Along step Q s (as++bs) ↔ Along step Q s as ∧ Along step Q (run step s as) bs := by
  induction as generalizing s with
  | nil => simp [Along]
  | cons a as ih =>
    change Q s a ∧ Along step Q (step s a) (as++bs) ↔ _
    rw [ih,← and_assoc]
    rfl

theorem Along.take {step : σ → α → σ} {Q : σ → α → Prop} {s : σ} {as : List α}
    (ha : Along step Q s as) (n : Nat) : Along step Q s (as.take n) := by
  rw [← List.take_append_drop n as,along_append] at ha
  exact ha.1

theorem Along.and_mem {step : σ → α → σ} {Q : σ → α → Prop} {P : α → Prop} {s : σ}
    {as : List α} (ha : Along step Q s as) (hP : ∀ a∈as,P a) :
    Along step (fun s a => P a ∧ Q s a) s as := by
  induction as generalizing s with
  | nil => trivial
  | cons a as ih =>
    exact ⟨⟨hP a (by simp),ha.1⟩,ih ha.2 fun b hb => hP b (by simp [hb])⟩

/-- Where one step keeps `P` exactly when it meets `Q`, the whole run keeps `P` in every
state it reaches exactly when each of its actions meets `Q`. -/
theorem forall_take_iff_along {step : σ → α → σ} {Q : σ → α → Prop} {P : σ → Prop}
    (exact_step : ∀ s a,P s → (P (step s a) ↔ Q s a)) {s : σ} (as : List α) (hs : P s) :
    (∀ n,P (run step s (as.take n))) ↔ Along step Q s as := by
  induction as generalizing s with
  | nil => simp [Along,hs]
  | cons a as ih =>
    constructor
    · intro h
      have first : P (step s a) := h 1
      exact ⟨(exact_step s a hs).mp first,(ih first).mp (fun n => h (n+1))⟩
    · intro h n
      have first : P (step s a) := (exact_step s a hs).mpr h.1
      cases n with
      | zero => exact hs
      | succ n => exact (ih first).mpr h.2 n

/-- What each step does, the whole run does between any two of its states. -/
theorem forall_le_iff_along {step : σ → α → σ} {R : σ → σ → Prop} (refl : ∀ s,R s s)
    (trans : ∀ s t u,R s t → R t u → R s u) {s : σ} (as : List α) :
    (∀ n m,n ≤ m → R (run step s (as.take n)) (run step s (as.take m))) ↔
      Along step (fun s a => R s (step s a)) s as := by
  induction as generalizing s with
  | nil => simp [Along,refl]
  | cons a as ih =>
    constructor
    · intro h
      refine ⟨h 0 1 (by omega),ih.mp fun n m hnm => ?_⟩
      exact h (n+1) (m+1) (by omega)
    · intro h n m hnm
      have rest : ∀ n m,n ≤ m →
          R (run step (step s a) (as.take n)) (run step (step s a) (as.take m)) := ih.mpr h.2
      cases m with
      | zero =>
        obtain rfl : n=0 := by omega
        exact refl s
      | succ m =>
        cases n with
        | zero => exact trans _ _ _ h.1 (rest 0 m (by omega))
        | succ n => exact rest n m (by omega)

theorem along_congr {step : σ → α → σ} {P Q : σ → α → Prop} (h : ∀ s a,P s a ↔ Q s a) {s : σ}
    (as : List α) : Along step P s as ↔ Along step Q s as := by
  induction as generalizing s with
  | nil => rfl
  | cons a as ih => exact and_congr (h s a) ih

end FastPki
