import Mathlib.Tactic.Common

namespace FastPki

variable {σ ρ : Type*}

/-- The first `n` rounds of a loop without a bound of its own: each goes on or returns. -/
def rounds (body : σ → σ ⊕ ρ) : Nat → σ → σ ⊕ ρ
  | 0,s => .inl s
  | n+1,s =>
    match body s with
    | .inl t => rounds body n t
    | .inr r => .inr r

/-- The loop rule: with an invariant that every round keeps and a bound that every round lowers,
the loop returns, and what it returns is as a last round leaves it. -/
theorem rounds_returns {body : σ → σ ⊕ ρ} {I : σ → Prop} {Q : ρ → Prop} {bound : σ → Nat}
    (keep : ∀ s t,I s → body s=.inl t → I t ∧ bound t<bound s)
    (last : ∀ s r,I s → body s=.inr r → Q r) {n : Nat} {s : σ} (hs : I s) (hn : bound s<n) :
    ∃ r,rounds body n s=.inr r ∧ Q r := by
  induction n generalizing s with
  | zero => exact absurd hn (Nat.not_lt_zero _)
  | succ n ih =>
    rw [rounds]
    cases hbody : body s with
    | inl t =>
      obtain ⟨ht,hlt⟩ := keep s t hs hbody
      exact ih ht (by omega)
    | inr r => exact ⟨r,rfl,last s r hs hbody⟩

end FastPki
