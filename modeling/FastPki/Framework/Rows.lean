import FastPki.Framework.Table
import Mathlib.Data.List.Perm.Subperm

namespace FastPki

section Found

variable {κ ρ : Type*} [DecidableEq κ] {key : ρ → κ}

/-- What is found is found also among the rows that stay. -/
theorem lookup_filter {p : ρ → Bool} {k : κ} {t : List ρ} {x : ρ} (h : lookup key k t=some x)
    (hp : p x=true) : lookup key k (t.filter p)=some x := by
  induction t with
  | nil => cases h
  | cons y t ih =>
    rw [lookup_cons] at h
    split_ifs at h with hy
    · obtain rfl := Option.some.inj h
      rw [List.filter_cons_of_pos hp,lookup_cons,if_pos hy]
    · by_cases hpy : p y=true
      · rw [List.filter_cons_of_pos hpy,lookup_cons,if_neg hy]
        exact ih h
      · rw [List.filter_cons_of_neg hpy]
        exact ih h

/-- A key that is removed is gone, and every other one stays. -/
theorem lookup_remove (k k' : κ) (t : List ρ) :
    lookup key k (remove key k' t)=if k=k' then none else lookup key k t := by
  induction t with
  | nil => split_ifs <;> rfl
  | cons x t ih =>
    rw [remove] at ih ⊢
    by_cases hx : key x=k'
    · rw [List.filter_cons_of_neg (by simpa using hx),ih,lookup_cons,hx]
      split_ifs with hk hk'
      · rfl
      · exact absurd hk'.symm hk
      · rfl
    · rw [List.filter_cons_of_pos (by simpa using hx),lookup_cons,ih,lookup_cons]
      split_ifs with hk hk'
      · exact absurd (hk.trans hk') hx
      · rfl
      · rfl
      · rfl

theorem length_upsert_le (r : ρ) (t : List ρ) : (upsert key r t).length ≤ t.length+1 := by
  rw [upsert]
  split_ifs
  · rw [List.length_map]
    exact Nat.le_succ _
  · rw [List.length_append]
    exact Nat.le_refl _

theorem length_upsert_of_lookup {r x : ρ} {t : List ρ} (h : lookup key (key r) t=some x) :
    (upsert key r t).length=t.length := by
  have hany : (t.any fun y => decide (key y=key r))=true :=
    List.any_eq_true.mpr ⟨x,lookup_mem h,decide_eq_true (lookup_key h)⟩
  rw [upsert,if_pos hany,List.length_map]

end Found

section Taken

variable {α β : Type*}

/-- A row that was found goes with all that the search would find. -/
theorem cons_filter_subperm {p : α → Bool} {l : List α} {x : α} (h : l.find? p=some x) :
    (x::l.filter (!p ·)).Subperm l := by
  have hx : x∈l.filter p := List.mem_filter.mpr ⟨List.mem_of_find?_eq_some h,List.find?_some h⟩
  have hone : [x].Subperm (l.filter p) := List.singleton_subperm_iff.mpr hx
  have hboth : ([x]++l.filter (!p ·)).Subperm (l.filter p++l.filter (!p ·)) :=
    (List.subperm_append_right _).mpr hone
  exact hboth.trans (List.filter_append_perm p l).subperm

/-- The same of a row that was found under its key. -/
theorem cons_remove_subperm {κ : Type*} [DecidableEq κ] {key : α → κ} {k : κ} {l : List α} {x : α}
    (h : lookup key k l=some x) : (x::remove key k l).Subperm l := by
  have hrest : remove key k l=l.filter fun y => !decide (key y=k) := by
    simp [remove]
  rw [hrest]
  exact cons_filter_subperm h

/-- What is picked out of a list, with what is picked out of the rest. -/
theorem filterMap_eraseIdx_perm {f : α → Option β} {l : List α} {i : Nat} {x : α}
    (h : l[i]?=some x) :
    ((f x).toList++(l.eraseIdx i).filterMap f).Perm (l.filterMap f) := by
  obtain ⟨hi,rfl⟩ := List.getElem?_eq_some_iff.mp h
  have hperm := (List.getElem_cons_eraseIdx_perm hi).filterMap f
  rw [List.filterMap_cons] at hperm
  cases hx : f l[i] with
  | none => simpa [hx] using hperm
  | some b => simpa [hx] using hperm

end Taken

end FastPki
