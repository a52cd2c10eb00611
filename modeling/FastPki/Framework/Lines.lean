import Mathlib.Data.List.Basic
import Mathlib.Tactic.Common

namespace FastPki

variable {α : Type*}

/-- Each line with its separator behind it. -/
def putlines (nl : α) (ls : List (List α)) : List α := ls.flatMap fun l => l++[nl]

@[simp] theorem putlines_cons (nl : α) (l : List α) (ls : List (List α)) :
    putlines nl (l::ls)=l++nl::putlines nl ls := by simp [putlines]

variable [DecidableEq α]

/-- `getline` until the text ends: the pieces between the separators, none behind a last one. -/
def getlines (nl : α) : List α → List (List α)
  | [] => []
  | c::s =>
    if c = nl then []::getlines nl s
    else match getlines nl s with
      | [] => [[c]]
      | l::rest => (c::l)::rest

theorem getlines_append_cons {nl : α} {l : List α} (hl : nl∉l) (s : List α) :
    getlines nl (l++nl::s)=l::getlines nl s := by
  induction l with
  | nil => simp [getlines]
  | cons c l ih =>
    have hc : c≠nl := fun h => hl (h ▸ List.mem_cons_self)
    have hrest : nl∉l := fun h => hl (List.mem_cons_of_mem c h)
    rw [List.cons_append,getlines,if_neg hc,ih hrest]

theorem getlines_putlines_append {nl : α} {ls : List (List α)} (h : ∀ l∈ls,nl∉l) (s : List α) :
    getlines nl (putlines nl ls++s)=ls++getlines nl s := by
  induction ls with
  | nil => rfl
  | cons l ls ih =>
    have hrest : ∀ m∈ls,nl∉m := fun m hm => h m (List.mem_cons_of_mem l hm)
    rw [putlines_cons,List.append_assoc,List.cons_append,
      getlines_append_cons (h l List.mem_cons_self),ih hrest,List.cons_append]

/-- What was written in lines is read in these lines. -/
theorem getlines_putlines {nl : α} {ls : List (List α)} (h : ∀ l∈ls,nl∉l) :
    getlines nl (putlines nl ls)=ls := by
  have hread := getlines_putlines_append h []
  rwa [List.append_nil,getlines,List.append_nil] at hread

/-- A last piece without a separator behind it. -/
theorem getlines_of_notMem {nl : α} {l : List α} (hl : nl∉l) (hne : l≠[]) : getlines nl l=[l] := by
  induction l with
  | nil => exact absurd rfl hne
  | cons c l ih =>
    have hc : c≠nl := fun h => hl (h ▸ List.mem_cons_self)
    have hrest : nl∉l := fun h => hl (List.mem_cons_of_mem c h)
    rw [getlines,if_neg hc]
    cases l with
    | nil => rfl
    | cons d l => rw [ih hrest (List.cons_ne_nil d l)]

theorem notMem_of_mem_getlines {nl : α} {s l : List α} (h : l∈getlines nl s) : nl∉l := by
  induction s generalizing l with
  | nil => cases h
  | cons c s ih =>
    rw [getlines] at h
    split_ifs at h with hc
    · obtain rfl|hrest := List.mem_cons.mp h
      · exact List.not_mem_nil
      · exact ih hrest
    · have hnot : ∀ m : List α,nl∉m → nl∉c::m := fun m hm hmem =>
        (List.mem_cons.mp hmem).elim (fun heq => hc heq.symm) hm
      cases hlines : getlines nl s with
      | nil =>
        simp only [hlines,List.mem_singleton] at h
        exact h ▸ hnot [] List.not_mem_nil
      | cons m rest =>
        simp only [hlines,List.mem_cons] at h
        obtain rfl|hrest := h
        · exact hnot m (ih (hlines ▸ List.mem_cons_self))
        · exact ih (hlines ▸ List.mem_cons_of_mem m hrest)

theorem mem_of_mem_getlines {nl c : α} {s l : List α} (h : l∈getlines nl s) (hc : c∈l) : c∈s := by
  induction s generalizing l with
  | nil => cases h
  | cons d s ih =>
    rw [getlines] at h
    split_ifs at h
    · obtain rfl|hrest := List.mem_cons.mp h
      · cases hc
      · exact List.mem_cons_of_mem d (ih hrest hc)
    · cases hlines : getlines nl s with
      | nil =>
        simp only [hlines,List.mem_singleton] at h
        rw [h,List.mem_singleton] at hc
        exact hc ▸ List.mem_cons_self
      | cons m rest =>
        simp only [hlines,List.mem_cons] at h
        obtain rfl|hrest := h
        · obtain rfl|hm := List.mem_cons.mp hc
          · exact List.mem_cons_self
          · exact List.mem_cons_of_mem d (ih (hlines ▸ List.mem_cons_self) hm)
        · exact List.mem_cons_of_mem d (ih (hlines ▸ List.mem_cons_of_mem m hrest) hc)

end FastPki
