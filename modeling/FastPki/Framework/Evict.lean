import Mathlib.Data.List.Sort
import Mathlib.Tactic.Common

namespace FastPki

variable {α κ : Type*} [DecidableEq κ]

/-- The table without the `d` least of its rows, which are dropped by key. -/
def evictLeast (key : α → κ) (le : α → α → Bool) (d : Nat) (l : List α) : List α :=
  l.filter fun x => key x ∉ ((l.mergeSort le).take d).map key

section

variable {key : α → κ} {le : α → α → Bool} {d : Nat} {l : List α}

theorem evictLeast_sublist : (evictLeast key le d l).Sublist l := List.filter_sublist

theorem filter_not_mem_take (h : (l.map key).Nodup) :
    l.filter (fun x => key x ∉ (l.take d).map key)=l.drop d := by
  have hsplit : l.map key=(l.take d).map key++(l.drop d).map key := by
    rw [← List.map_append,List.take_append_drop]
  rw [hsplit,List.nodup_append] at h
  have hleast : (l.take d).filter (fun x => key x ∉ (l.take d).map key)=[] := by
    rw [List.filter_eq_nil_iff]
    intro x hx
    rw [decide_eq_true_eq,not_not]
    exact List.mem_map_of_mem hx
  have hrest : (l.drop d).filter (fun x => key x ∉ (l.take d).map key)=l.drop d := by
    rw [List.filter_eq_self]
    intro x hx
    rw [decide_eq_true_eq]
    intro hin
    exact h.2.2 (key x) hin (key x) (List.mem_map_of_mem hx) rfl
  calc l.filter (fun x => key x ∉ (l.take d).map key)
      = (l.take d++l.drop d).filter (fun x => key x ∉ (l.take d).map key) := by
        rw [List.take_append_drop]
    _ = l.drop d := by rw [List.filter_append,hleast,hrest,List.nil_append]

/-- What is left is the upper part of the sorted table. -/
theorem evictLeast_perm (h : (l.map key).Nodup) :
    (evictLeast key le d l).Perm ((l.mergeSort le).drop d) := by
  have hperm : (l.mergeSort le).Perm l := List.mergeSort_perm l le
  have hnodup : ((l.mergeSort le).map key).Nodup := (hperm.map key).nodup_iff.mpr h
  rw [← filter_not_mem_take hnodup]
  exact (hperm.filter _).symm

theorem length_evictLeast (h : (l.map key).Nodup) :
    (evictLeast key le d l).length=l.length-d := by
  rw [(evictLeast_perm h).length_eq,List.length_drop,(List.mergeSort_perm l le).length_eq]

/-- In a list without repetition an element is among the last ones exactly when few stand after it. -/
theorem mem_drop_append_cons {l1 l2 : List α} {x : α} (h1 : x∉l1) (h2 : x∉l2) :
    x∈(l1++x::l2).drop d ↔ l2.length<(l1++x::l2).length-d := by
  rw [List.drop_append,List.mem_append]
  have hleft : x∉l1.drop d := fun hx => h1 (List.mem_of_mem_drop hx)
  simp only [hleft,false_or,List.length_append,List.length_cons]
  cases hd : d-l1.length with
  | zero =>
    simp only [List.drop_zero,List.mem_cons_self,true_iff]
    omega
  | succ n =>
    have hright : x∉(x::l2).drop (n+1) := fun hx => h2 (List.mem_of_mem_drop hx)
    simp only [hright,false_iff]
    omega

/-- A row stays exactly when fewer rows are above it than are kept. -/
theorem mem_evictLeast_iff (trans : ∀ a b c,le a b → le b c → le a c) (total : ∀ a b,le a b || le b a)
    (anti : ∀ a∈l,∀ b∈l,le a b → le b a → a=b) (h : (l.map key).Nodup) {x : α} (hx : x∈l) :
    x∈evictLeast key le d l ↔ (l.filter fun y => !le y x).length<l.length-d := by
  have hperm : (l.mergeSort le).Perm l := List.mergeSort_perm l le
  have hsorted := List.pairwise_mergeSort trans total l
  have hnodup : (l.mergeSort le).Nodup := hperm.nodup_iff.mpr h.of_map
  have habove := (hperm.filter fun y => !le y x).length_eq
  rw [(evictLeast_perm h).mem_iff,← habove,← hperm.length_eq]
  have hmem (y : α) (hy : y∈l.mergeSort le) : y∈l := hperm.mem_iff.mp hy
  obtain ⟨l1,l2,hl⟩ := List.append_of_mem (hperm.mem_iff.mpr hx)
  rw [hl] at hsorted hnodup hmem ⊢
  rw [List.pairwise_append,List.pairwise_cons] at hsorted
  rw [List.nodup_append,List.nodup_cons] at hnodup
  have h1 : x∉l1 := fun hx1 => hnodup.2.2 x hx1 x List.mem_cons_self rfl
  have h2 : x∉l2 := hnodup.2.1.1
  have hbelow : l1.filter (fun y => !le y x)=[] := by
    rw [List.filter_eq_nil_iff]
    intro y hy
    simp [hsorted.2.2 y hy x List.mem_cons_self]
  have hself : le x x=true := by simpa using total x x
  have hover : l2.filter (fun y => !le y x)=l2 := by
    rw [List.filter_eq_self]
    intro y hy
    by_contra hle
    have hyx : le y x=true := by simpa using hle
    have heq := anti x hx y (hmem y (by simp [hy])) (hsorted.2.1.1 y hy) hyx
    exact h2 (heq ▸ hy)
  have hfilter : (l1++x::l2).filter (fun y => !le y x)=l2 := by
    rw [List.filter_append,hbelow,List.filter_cons,hself,hover]
    simp
  rw [hfilter]
  exact mem_drop_append_cons h1 h2

end

end FastPki
