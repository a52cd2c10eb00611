import FastPki.Framework.Regex

namespace FastPki

/-- What a search with backtracking comes to: whether it has found a match, and its steps. -/
structure Search where
  found : Bool
  steps : Nat
  deriving DecidableEq

namespace Search

def fail : Search := ⟨false,1⟩

def tick (s : Search) : Search := ⟨s.found,s.steps+1⟩

/-- The second is tried where the first has failed. -/
def orElse (s t : Search) : Search := if s.found then s else ⟨t.found,s.steps+t.steps⟩

@[simp] theorem fail_found : fail.found=false := rfl

@[simp] theorem fail_steps : fail.steps=1 := rfl

@[simp] theorem tick_found (s : Search) : s.tick.found=s.found := rfl

@[simp] theorem tick_steps (s : Search) : s.tick.steps=s.steps+1 := rfl

@[simp] theorem orElse_found (s t : Search) : (s.orElse t).found=(s.found || t.found) := by
  rw [orElse]
  split_ifs with h
  · simp [h]
  · simp [h]

theorem orElse_steps_le (s t : Search) : (s.orElse t).steps ≤ s.steps+t.steps := by
  rw [orElse]
  split_ifs
  · exact Nat.le_add_right _ _
  · exact le_rfl

/-- Where the first fails, both have been searched. -/
theorem orElse_steps {s : Search} (t : Search) (h : s.found=false) :
    (s.orElse t).steps=s.steps+t.steps := by
  rw [orElse,if_neg (by simp [h])]

end Search

namespace Regex

variable {α : Type*}

/-- The greedy loop of a star: once more, and where that fails, on. An iteration that reads nothing
is refused, so that no more than `n` of them fit into a word shorter than `n`. -/
def loop (body : List α → (List α → Search) → Search) (k : List α → Search) :
    Nat → List α → Search
  | 0,w => (k w).tick
  | n+1,w =>
    ((body w fun v => if v.length < w.length then loop body k n v else .fail).orElse (k w)).tick

/-- The search of a backtracking matcher: alternatives in order, every choice retried when the rest
of the pattern, `k`, fails on what is left. -/
def search : Regex α → List α → (List α → Search) → Search
  | empty,_,_ => .fail
  | epsilon,w,k => k w
  | char cls,w,k =>
    match w with
    | [] => .fail
    | a::v => if cls a then (k v).tick else .fail
  | alt r s,w,k => ((search r w k).orElse (search s w k)).tick
  | seq r s,w,k => search r w fun v => search s v k
  | star r,w,k => loop (search r) k (w.length+1) w

/-- Nothing of the word may be left. -/
def atEnd (w : List α) : Search := ⟨w.isEmpty,1⟩

/-- `std::regex_match`. -/
def regexMatch (r : Regex α) (w : List α) : Search := r.search w atEnd

section Found

open Computability

variable {k : List α → Search} {w : List α}

theorem loop_found {body : List α → (List α → Search) → Search} {l : Language α}
    (hbody : ∀ v k,(body v k).found=true ↔ ∃ x∈l,∃ y,x++y=v ∧ (k y).found=true) {n : Nat}
    (hn : w.length<n) :
    (loop body k n w).found=true ↔ ∃ x∈l∗,∃ y,x++y=w ∧ (k y).found=true := by
  induction n generalizing w with
  | zero => exact absurd hn (Nat.not_lt_zero _)
  | succ n ih =>
    rw [loop,Search.tick_found,Search.orElse_found,Bool.or_eq_true,hbody]
    constructor
    · rintro (⟨x,hx,y,rfl,hy⟩|hk)
      · split_ifs at hy with hlt
        · obtain ⟨u,hu,v,rfl,hv⟩ := (ih (by omega)).mp hy
          refine ⟨x++u,?_,v,List.append_assoc ..,hv⟩
          rw [← Language.one_add_self_mul_kstar_eq_kstar]
          exact Or.inr (Language.append_mem_mul hx hu)
        · cases hy
      · exact ⟨[],Language.nil_mem_kstar l,w,rfl,hk⟩
    · rintro ⟨x,hx,y,rfl,hy⟩
      cases x with
      | nil => exact Or.inr hy
      | cons a x =>
        obtain ⟨u,v,hu,hv,rfl⟩ := cons_mem_kstar.mp hx
        refine Or.inl ⟨a::u,hu,v++y,by simp,?_⟩
        have hlt : (v++y).length<(a::(u++v)++y).length := by
          simp only [List.cons_append,List.length_cons,List.length_append]
          omega
        rw [if_pos hlt]
        exact (ih (by omega)).mpr ⟨v,hv,y,rfl,hy⟩

/-- The search finds a match where a word of the language can be read and the rest goes on. -/
theorem search_found (r : Regex α) :
    (r.search w k).found=true ↔ ∃ x∈r.lang,∃ y,x++y=w ∧ (k y).found=true := by
  induction r generalizing w k with
  | empty => simp [search,lang]
  | epsilon => simp [search,lang]
  | char cls =>
    simp only [mem_lang_char]
    cases w with
    | nil => simp [search]
    | cons a v =>
      rw [search]
      split_ifs with ha
      · constructor
        · intro hk
          exact ⟨[a],⟨a,ha,rfl⟩,v,rfl,hk⟩
        · rintro ⟨_,⟨b,_,rfl⟩,y,hy,hk⟩
          obtain ⟨_,rfl⟩ := List.cons.inj hy
          exact hk
      · constructor
        · intro hk
          cases hk
        · rintro ⟨_,⟨b,hb,rfl⟩,y,hy,_⟩
          obtain ⟨rfl,_⟩ := List.cons.inj hy
          exact absurd hb ha
  | alt r s ihr ihs =>
    rw [search,Search.tick_found,Search.orElse_found,Bool.or_eq_true,ihr,ihs]
    simp only [mem_lang_alt,or_and_right,exists_or]
  | seq r s ihr ihs =>
    rw [search,ihr]
    simp only [mem_lang_seq]
    constructor
    · rintro ⟨x,hx,y,rfl,hy⟩
      obtain ⟨u,hu,v,rfl,hv⟩ := ihs.mp hy
      exact ⟨x++u,⟨x,hx,u,hu,rfl⟩,v,List.append_assoc ..,hv⟩
    · rintro ⟨_,⟨x,hx,u,hu,rfl⟩,v,rfl,hv⟩
      exact ⟨x,hx,u++v,(List.append_assoc ..).symm,ihs.mpr ⟨u,hu,v,rfl,hv⟩⟩
  | star r ih => exact loop_found (fun v k => ih) (Nat.lt_succ_self _)

/-- Where the rest of the pattern fails on all that can be left, so does the whole. -/
theorem search_fails (r : Regex α) (hk : ∀ v,v<:+w → (k v).found=false) :
    (r.search w k).found=false := by
  rw [Bool.eq_false_iff]
  intro hfound
  obtain ⟨x,_,y,rfl,hy⟩ := (search_found r).mp hfound
  rw [hk y (List.suffix_append x y)] at hy
  cases hy

theorem loop_fails (r : Regex α) (hk : ∀ v,v<:+w → (k v).found=false) {n : Nat}
    (hn : w.length<n) : (loop (search r) k n w).found=false := by
  rw [Bool.eq_false_iff]
  intro hfound
  obtain ⟨x,_,y,rfl,hy⟩ := (loop_found (fun v k => search_found r) hn).mp hfound
  rw [hk y (List.suffix_append x y)] at hy
  cases hy

/-- Nor does another round of a loop help. -/
theorem round_fails (r s : Regex α) (hk : ∀ v,v<:+w → (k v).found=false) {n : Nat}
    (hn : w.length<n+1) : (s.search w fun v =>
      if v.length < w.length then loop (search r) k n v else .fail).found=false := by
  apply search_fails
  intro v hv
  split_ifs with hlt
  · exact loop_fails r (fun u hu => hk u (hu.trans hv)) (by omega)
  · rfl

/-- Backtracking decides the same words. -/
theorem regexMatch_found (r : Regex α) (w : List α) : (r.regexMatch w).found=r.isMatch w := by
  rw [Bool.eq_iff_iff,isMatch_iff,regexMatch,search_found]
  simp [atEnd]

end Found

section Literal

variable [DecidableEq α] {k : List α → Search}

/-- A literal is given up at the first letter that differs. -/
theorem literal_steps_le {bound : Nat} (hk : ∀ v,(k v).steps ≤ bound) (u w : List α) :
    ((literal u).search w k).steps ≤ u.length+bound+1 := by
  induction u generalizing w with
  | nil => exact (hk w).trans (by simp)
  | cons a u ih =>
    change ((char (· = a)).search w fun v => (literal u).search v k).steps ≤ _
    cases w with
    | nil =>
      rw [search,Search.fail_steps]
      omega
    | cons b v =>
      rw [search]
      split_ifs
      · have h := ih v
        rw [Search.tick_steps,List.length_cons]
        omega
      · rw [Search.fail_steps]
        omega

end Literal

end Regex

end FastPki
