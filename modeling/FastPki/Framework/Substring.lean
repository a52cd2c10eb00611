import Mathlib.Data.List.Infix

namespace FastPki

variable {α : Type*}

/-- The pattern stands behind `p`, and nowhere before that. -/
def FirstAfter (pat p r : List α) : Prop := pat<+:r ∧ ∀ q < p.length,¬pat<+:(p++r).drop q

/-- A pattern without `a` does not reach over one. -/
theorem prefix_append_cons_iff {a : α} {n : List α} (hn : a∉n) (x t : List α) :
    n<+:x++a::t ↔ n<+:x := by
  induction n generalizing x with
  | nil => simp
  | cons b n ih =>
    have hb : b≠a := fun h => hn (h ▸ List.mem_cons_self)
    have hrest : a∉n := fun h => hn (List.mem_cons_of_mem b h)
    cases x with
    | nil => simp [hb]
    | cons c x => simp [List.cons_prefix_cons,ih hrest]

/-- Where the pattern is one symbol, nothing before it is this symbol. -/
theorem firstAfter_singleton {a : α} {p r : List α} (h : FirstAfter [a] p r) :
    a∉p ∧ ∃ t,r=a::t := by
  constructor
  · intro hmem
    obtain ⟨p1,p2,rfl⟩ := List.append_of_mem hmem
    have hnone := h.2 p1.length (by simp)
    rw [List.append_assoc,List.drop_left,List.cons_append] at hnone
    exact hnone (List.cons_prefix_cons.mpr ⟨rfl,List.nil_prefix⟩)
  · obtain ⟨t,rfl⟩ := h.1
    exact ⟨t,rfl⟩

theorem firstAfter_singleton_of_notMem {a : α} {p : List α} (h : a∉p) (t : List α) :
    FirstAfter [a] p (a::t) := by
  refine ⟨List.cons_prefix_cons.mpr ⟨rfl,List.nil_prefix⟩,fun q hq hpre => ?_⟩
  rw [List.drop_append_of_le_length (Nat.le_of_lt hq),List.drop_eq_getElem_cons hq,
    List.cons_append,List.cons_prefix_cons] at hpre
  exact h (hpre.1 ▸ List.getElem_mem hq)

section Search

variable [BEq α] [LawfulBEq α]

/-- A search for the first place of `pat`: what is before it, and what starts with it. -/
def splitFirst (pat : List α) : List α → Option (List α × List α)
  | [] => if pat.isPrefixOf [] then some ([],[]) else none
  | c::s => if pat.isPrefixOf (c::s) then some ([],c::s)
      else (splitFirst pat s).map fun r => (c::r.1,r.2)

theorem splitFirst_spec {pat s p r : List α} (h : splitFirst pat s=some (p,r)) :
    s=p++r ∧ FirstAfter pat p r := by
  induction s generalizing p r with
  | nil =>
    rw [splitFirst] at h
    split_ifs at h with hpre
    obtain ⟨rfl,rfl⟩ := Prod.mk.inj (Option.some.inj h)
    exact ⟨rfl,List.isPrefixOf_iff_prefix.mp hpre,fun q hq => absurd hq (Nat.not_lt_zero q)⟩
  | cons c s ih =>
    rw [splitFirst] at h
    split_ifs at h with hpre
    · obtain ⟨rfl,rfl⟩ := Prod.mk.inj (Option.some.inj h)
      exact ⟨rfl,List.isPrefixOf_iff_prefix.mp hpre,fun q hq => absurd hq (Nat.not_lt_zero q)⟩
    · obtain ⟨⟨p',r'⟩,hrest,heq⟩ := Option.map_eq_some_iff.mp h
      obtain ⟨rfl,rfl⟩ := Prod.mk.inj heq
      obtain ⟨hs,hfirst,hnone⟩ := ih hrest
      refine ⟨by rw [hs,List.cons_append],hfirst,fun q hq => ?_⟩
      cases q with
      | zero =>
        rw [List.drop_zero,List.cons_append,← hs,← List.isPrefixOf_iff_prefix]
        exact hpre
      | succ q => exact hnone q (Nat.lt_of_succ_lt_succ hq)

theorem splitFirst_append {pat p r : List α} (h : FirstAfter pat p r) :
    splitFirst pat (p++r)=some (p,r) := by
  induction p with
  | nil =>
    have hpre : pat.isPrefixOf r=true := List.isPrefixOf_iff_prefix.mpr h.1
    rw [List.nil_append]
    cases r with
    | nil => rw [splitFirst,if_pos hpre]
    | cons c r => rw [splitFirst,if_pos hpre]
  | cons c p ih =>
    have hrest : FirstAfter pat p r := ⟨h.1,fun q hq => h.2 (q+1) (Nat.succ_lt_succ hq)⟩
    have hhead : ¬pat.isPrefixOf (c::(p++r))=true := by
      rw [List.isPrefixOf_iff_prefix]
      exact h.2 0 (Nat.succ_pos p.length)
    rw [List.cons_append,splitFirst,if_neg hhead,ih hrest]
    rfl

end Search

end FastPki
