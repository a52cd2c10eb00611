import FastPki.Framework.Keyed
import Mathlib.Data.List.Nodup

/-! A table that is carried over, row by row, into an empty one. -/

namespace FastPki

variable {α κ ρ σ τ : Type*}

section Table

variable [DecidableEq κ] {key : ρ → κ}

theorem lookup_of_fresh {k : κ} {t : List ρ} (h : ∀ y∈t,key y≠k) : lookup key k t=none := by
  simpa [lookup] using h

theorem upsert_of_fresh {r : ρ} {t : List ρ} (h : ∀ y∈t,key y≠key r) : upsert key r t=t++[r] := by
  have hnone : ¬(t.any fun y => decide (key y=key r))=true := by simpa using h
  rw [upsert,if_neg hnone]

end Table

/-- A row that is kept or dropped, and where it is kept has the key of `r`. -/
theorem key_of_kept {p : Prop} [Decidable p] (key : ρ → κ) {r x : ρ}
    (h : (if p then none else some r)=some x) : key x=key r := by
  rw [Option.ite_none_left_eq_some,Option.some.injEq] at h
  rw [h.2]

/-- What is written row by row is what the single writes leave, where each finds its key free. -/
theorem foldl_fresh {key : ρ → κ} {name : α → κ} {row : α → Option ρ} {put : α → List ρ → List ρ}
    (hrow : ∀ x r,row x=some r → key r=name x)
    (hput : ∀ x t,(∀ y∈t,key y≠name x) → put x t=t++(row x).toList) (l : List α) (t : List ρ)
    (hl : (l.map name).Nodup) (hfresh : ∀ x∈l,∀ y∈t,key y≠name x) :
    l.foldl (fun t x => put x t) t=t++l.filterMap row := by
  induction l generalizing t with
  | nil => simp
  | cons x l ih =>
    have hne := key_ne_of_nodup hl
    have hstep : put x t=t++(row x).toList := hput x t (hfresh x List.mem_cons_self)
    have hrest : ∀ z∈l,∀ y∈t++(row x).toList,key y≠name z := by
      intro z hz y hy
      obtain hy|hy := List.mem_append.mp hy
      · exact hfresh z (List.mem_cons_of_mem x hz) y hy
      · rw [hrow x y (by simpa using hy)]
        exact (hne z hz).symm
    rw [List.foldl_cons,hstep,ih _ (List.nodup_cons.mp hl).2 hrest,List.append_assoc]
    congr 1
    cases hx : row x with
    | none => simp [hx]
    | some r => simp [hx]

/-- Two folds that go through the same list stay related. -/
theorem foldl_related {R : τ → σ → Prop} {f : τ → α → τ} {g : σ → α → σ} {l : List α}
    (hstep : ∀ x∈l,∀ t s,R t s → R (f t x) (g s x)) {t : τ} {s : σ} (h : R t s) :
    R (l.foldl f t) (l.foldl g s) := by
  induction l generalizing t s with
  | nil => exact h
  | cons x l ih =>
    have hfirst := hstep x List.mem_cons_self t s h
    exact ih (fun y hy => hstep y (List.mem_cons_of_mem x hy)) hfirst

/-- Where rows keep their keys, the same rows come over exactly when each comes over as it is. -/
theorem carried_iff {key : ρ → κ} {carry : ρ → Option ρ} {l : List ρ} (hl : (l.map key).Nodup)
    (hkey : ∀ x y,carry x=some y → key y=key x) :
    (∀ x,x∈l.filterMap carry ↔ x∈l) ↔ ∀ x∈l,carry x=some x := by
  constructor
  · intro h x hx
    obtain ⟨y,hy,hyx⟩ := List.mem_filterMap.mp ((h x).mpr hx)
    have hsame : y=x := List.inj_on_of_nodup_map hl hy hx (hkey y x hyx).symm
    rwa [hsame] at hyx
  · intro h x
    rw [List.mem_filterMap]
    constructor
    · intro hx
      obtain ⟨y,hy,hyx⟩ := hx
      rw [h y hy] at hyx
      exact Option.some.inj hyx ▸ hy
    · intro hx
      exact ⟨x,hx,h x hx⟩

end FastPki
