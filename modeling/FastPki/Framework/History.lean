import FastPki.Framework.Run
import Mathlib.Data.List.Induction
import Mathlib.Data.List.Perm.Subperm

namespace FastPki

section Happened

variable {σ α : Type*}

/-- Some action of the run was taken where `P` held of the actions before it. -/
def Happened (P : List α → α → Prop) (as : List α) : Prop :=
  ∃ pre a post,as=pre++a::post ∧ P pre a

theorem Happened.append {P : List α → α → Prop} {as : List α} (h : Happened P as) (bs : List α) :
    Happened P (as++bs) := by
  obtain ⟨pre,a,post,rfl,hP⟩ := h
  exact ⟨pre,a,post++bs,by simp,hP⟩

theorem Happened.last {P : List α → α → Prop} {as : List α} {a : α} (h : P as a) :
    Happened P (as++[a]) :=
  ⟨as,a,[],rfl,h⟩

theorem Happened.imp {P Q : List α → α → Prop} {as : List α} (h : Happened P as)
    (hPQ : ∀ pre a,P pre a → Q pre a) : Happened Q as := by
  obtain ⟨pre,a,post,has,hP⟩ := h
  exact ⟨pre,a,post,has,hPQ pre a hP⟩

/-- The induction rule for what is said of a state and of the run that led to it. -/
theorem run_history {step : σ → α → σ} {I : List α → σ → Prop} {s : σ} (base : I [] s)
    (keep : ∀ as a,I as (run step s as) → I (as++[a]) (step (run step s as) a)) (as : List α) :
    I as (run step s as) := by
  induction as using List.reverseRecOn with
  | nil => exact base
  | append_singleton as a ih =>
    rw [run_append]
    exact keep as a ih

/-- Where each step says what it brings, all that is there in the end was brought by some step. -/
theorem happened_of_mem_run {β : Type*} {step : σ → α → σ} {f : σ → List β} {P : σ → α → β → Prop}
    (keep : ∀ s a,∀ x∈f (step s a),x∈f s ∨ P s a x) {s : σ} (hs : f s=[]) (as : List α) :
    ∀ x∈f (run step s as),Happened (fun pre a => P (run step s pre) a x) as := by
  induction as using List.reverseRecOn with
  | nil => simp [hs]
  | append_singleton as a ih =>
    intro x hx
    rw [run_append] at hx
    obtain hold|hnew := keep _ a x hx
    · exact (ih x hold).append [a]
    · exact Happened.last hnew

end Happened

/-- Tickets: all that were issued, those that are still good, and those that something was got
for. -/
structure Ledger (τ : Type*) where
  issued : List τ
  good : List τ
  spent : List τ

namespace Ledger

variable {τ : Type*}

/-- One thing that may happen to a ticket. -/
inductive Step : Ledger τ → Ledger τ → Prop
  | issue {l : Ledger τ} {t : τ} {good : List τ} (h : good.Subperm (t::l.good)) :
      Step l ⟨t::l.issued,good,l.spent⟩
  | lapse {l : Ledger τ} {good : List τ} (h : good.Subperm l.good) : Step l ⟨l.issued,good,l.spent⟩
  | spend {l : Ledger τ} {t : τ} {good spent : List τ} (h : (t::good).Subperm l.good)
      (hs : spent.Perm (t::l.spent)) : Step l ⟨l.issued,good,spent⟩

/-- No ticket is there more often than it was issued. -/
def Sound (l : Ledger τ) : Prop := (l.spent++l.good).Subperm l.issued

theorem Step.same {l m : Ledger τ} (hi : m.issued=l.issued) (hg : m.good.Subperm l.good)
    (hs : m.spent=l.spent) : Step l m := by
  obtain ⟨i,g,s⟩ := m
  obtain rfl : i=l.issued := hi
  obtain rfl : s=l.spent := hs
  exact Step.lapse hg

theorem Step.of_subperm {l l' m : Ledger τ} (h : Step l m) (hi : l.issued=l'.issued)
    (hg : l.good.Subperm l'.good) (hs : l.spent=l'.spent) : Step l' m := by
  obtain ⟨i,g,s⟩ := l'
  obtain rfl : l.issued=i := hi
  obtain rfl : l.spent=s := hs
  cases h with
  | issue h => exact Step.issue (h.trans ((List.subperm_cons _).mpr hg))
  | lapse h => exact Step.lapse (h.trans hg)
  | spend h hs => exact Step.spend (h.trans hg) hs

theorem Sound.step {l m : Ledger τ} (hl : l.Sound) (h : Step l m) : m.Sound := by
  cases h with
  | @issue t good h =>
    have hcons : (l.spent++t::l.good).Subperm (t::l.issued) :=
      List.perm_middle.subperm.trans ((List.subperm_cons t).mpr hl)
    exact ((List.subperm_append_left l.spent).mpr h).trans hcons
  | lapse h => exact ((List.subperm_append_left l.spent).mpr h).trans hl
  | @spend t good spent h hs =>
    have hmove : (spent++good).Perm (l.spent++t::good) :=
      (hs.append_right good).trans List.perm_middle.symm
    exact (hmove.subperm.trans ((List.subperm_append_left l.spent).mpr h)).trans hl

/-- What was got, was got for tickets of its own. -/
theorem Sound.spent_subperm {l : Ledger τ} (hl : l.Sound) : l.spent.Subperm l.issued :=
  (List.sublist_append_left l.spent l.good).subperm.trans hl

end Ledger

end FastPki
