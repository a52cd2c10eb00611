import Mathlib.Computability.Language

namespace FastPki

/-- Regular expressions whose letters are classes of characters. -/
inductive Regex (α : Type*) where
  | empty
  | epsilon
  | char (cls : α → Bool)
  | alt (r s : Regex α)
  | seq (r s : Regex α)
  | star (r : Regex α)

namespace Regex

variable {α : Type*}

def nullable : Regex α → Bool
  | empty => false
  | epsilon => true
  | char _ => false
  | alt r s => r.nullable || s.nullable
  | seq r s => r.nullable && s.nullable
  | star _ => true

/-- What has to follow `a` for the whole to match. -/
def deriv (a : α) : Regex α → Regex α
  | empty => empty
  | epsilon => empty
  | char cls => if cls a then epsilon else empty
  | alt r s => alt (r.deriv a) (s.deriv a)
  | seq r s => if r.nullable then alt (seq (r.deriv a) s) (s.deriv a) else seq (r.deriv a) s
  | star r => seq (r.deriv a) (star r)

/-- The whole of the word matches. -/
def isMatch (r : Regex α) (w : List α) : Bool := (w.foldl (fun r a => r.deriv a) r).nullable

def literal [DecidableEq α] (w : List α) : Regex α :=
  w.foldr (fun a r => seq (char (· = a)) r) epsilon

section Language

open Computability

/-- The words that match. -/
def lang : Regex α → Language α
  | empty => 0
  | epsilon => 1
  | char cls => Set.range (fun a : {a // cls a = true} => [a.1])
  | alt r s => r.lang+s.lang
  | seq r s => r.lang*s.lang
  | star r => r.lang∗

theorem mem_lang_char {cls : α → Bool} {w : List α} :
    w∈(char cls).lang ↔ ∃ a,cls a=true ∧ w=[a] := by
  constructor
  · rintro ⟨⟨a,ha⟩,rfl⟩
    exact ⟨a,ha,rfl⟩
  · rintro ⟨a,ha,rfl⟩
    exact ⟨⟨a,ha⟩,rfl⟩

theorem mem_lang_alt {r s : Regex α} {w : List α} :
    w∈(alt r s).lang ↔ w∈r.lang ∨ w∈s.lang := Language.mem_add ..

theorem mem_lang_seq {r s : Regex α} {w : List α} :
    w∈(seq r s).lang ↔ ∃ u∈r.lang,∃ v∈s.lang,u++v=w := Language.mem_mul

theorem mem_lang_star {r : Regex α} {w : List α} :
    w∈(star r).lang ↔ ∃ ws : List (List α),w=ws.flatten ∧ ∀ u∈ws,u∈r.lang := Language.mem_kstar

theorem nullable_iff (r : Regex α) : r.nullable=true ↔ []∈r.lang := by
  induction r with
  | empty => simp [nullable,lang]
  | epsilon => simp [nullable,lang]
  | char cls => simp [nullable,mem_lang_char]
  | alt r s ihr ihs => rw [nullable,Bool.or_eq_true,ihr,ihs,mem_lang_alt]
  | seq r s ihr ihs =>
    rw [nullable,Bool.and_eq_true,ihr,ihs,mem_lang_seq]
    constructor
    · intro h
      exact ⟨[],h.1,[],h.2,rfl⟩
    · rintro ⟨u,hu,v,hv,happ⟩
      obtain ⟨rfl,rfl⟩ := List.append_eq_nil_iff.mp happ
      exact ⟨hu,hv⟩
  | star r ih => simp [nullable,lang,Language.nil_mem_kstar]

/-- A letter is read by the first part, or by the second where the first may be empty. -/
theorem cons_mem_mul {l m : Language α} {a : α} {w : List α} :
    a::w∈l*m ↔ (∃ u v,a::u∈l ∧ v∈m ∧ u++v=w) ∨ ([]∈l ∧ a::w∈m) := by
  rw [Language.mem_mul]
  constructor
  · rintro ⟨u,hu,v,hv,happ⟩
    cases u with
    | nil => exact Or.inr ⟨hu,happ ▸ hv⟩
    | cons b u =>
      obtain ⟨rfl,hw⟩ := List.cons.inj happ
      exact Or.inl ⟨u,v,hu,hv,hw⟩
  · rintro (⟨u,v,hu,hv,hw⟩|⟨hl,hm⟩)
    · exact ⟨a::u,hu,v,hv,by rw [List.cons_append,hw]⟩
    · exact ⟨[],hl,a::w,hm,rfl⟩

theorem cons_mem_kstar {l : Language α} {a : α} {w : List α} :
    a::w∈l∗ ↔ ∃ u v,a::u∈l ∧ v∈l∗ ∧ u++v=w := by
  constructor
  · intro h
    obtain ⟨ws,hflat,hws⟩ := Language.mem_kstar_iff_exists_nonempty.mp h
    cases ws with
    | nil => cases hflat
    | cons x ws =>
      obtain ⟨hx,hne⟩ := hws x List.mem_cons_self
      cases x with
      | nil => exact absurd rfl hne
      | cons b u =>
        obtain ⟨rfl,hw⟩ := List.cons.inj hflat
        refine ⟨u,ws.flatten,hx,Language.join_mem_kstar fun y hy => ?_,hw.symm⟩
        exact (hws y (List.mem_cons_of_mem _ hy)).1
  · rintro ⟨u,v,hu,hv,hw⟩
    obtain ⟨ws,rfl,hws⟩ := Language.mem_kstar.mp hv
    refine Language.mem_kstar.mpr ⟨(a::u)::ws,by rw [← hw]; rfl,fun y hy => ?_⟩
    rcases List.mem_cons.mp hy with rfl|hy
    · exact hu
    · exact hws y hy

theorem mem_lang_deriv (r : Regex α) (a : α) (w : List α) :
    w∈(r.deriv a).lang ↔ a::w∈r.lang := by
  induction r generalizing w with
  | empty => simp [deriv,lang]
  | epsilon => simp [deriv,lang]
  | char cls =>
    rw [deriv,mem_lang_char]
    split_ifs with ha
    · simp [lang,ha]
    · simp [lang,ha]
  | alt r s ihr ihs => rw [deriv,mem_lang_alt,mem_lang_alt,ihr,ihs]
  | seq r s ihr ihs =>
    have hfirst : w∈(seq (r.deriv a) s).lang ↔ ∃ u v,a::u∈r.lang ∧ v∈s.lang ∧ u++v=w := by
      rw [mem_lang_seq]
      constructor
      · rintro ⟨u,hu,v,hv,hw⟩
        exact ⟨u,v,(ihr u).mp hu,hv,hw⟩
      · rintro ⟨u,v,hu,hv,hw⟩
        exact ⟨u,(ihr u).mpr hu,v,hv,hw⟩
    rw [deriv]
    split_ifs with hnull
    · rw [mem_lang_alt,hfirst,ihs,lang,cons_mem_mul,← nullable_iff,hnull]
      simp
    · rw [hfirst,lang,cons_mem_mul,← nullable_iff]
      simp [hnull]
  | star r ih =>
    rw [deriv,mem_lang_seq,lang,cons_mem_kstar]
    constructor
    · rintro ⟨u,hu,v,hv,hw⟩
      exact ⟨u,v,(ih u).mp hu,hv,hw⟩
    · rintro ⟨u,v,hu,hv,hw⟩
      exact ⟨u,(ih u).mpr hu,v,hv,hw⟩

/-- The matcher accepts the words of the language. -/
theorem isMatch_iff (r : Regex α) (w : List α) : r.isMatch w=true ↔ w∈r.lang := by
  induction w generalizing r with
  | nil => exact nullable_iff r
  | cons a w ih => exact (ih (r.deriv a)).trans (mem_lang_deriv r a w)

theorem mem_lang_literal [DecidableEq α] {w v : List α} : v∈(literal w).lang ↔ v=w := by
  induction w generalizing v with
  | nil => exact Language.mem_one v
  | cons a w ih =>
    change v∈(seq (char (· = a)) (literal w)).lang ↔ _
    rw [mem_lang_seq]
    constructor
    · rintro ⟨u,hu,x,hx,rfl⟩
      obtain ⟨b,hb,rfl⟩ := mem_lang_char.mp hu
      rw [of_decide_eq_true hb,ih.mp hx]
      rfl
    · rintro rfl
      exact ⟨[a],mem_lang_char.mpr ⟨a,by simp,rfl⟩,w,ih.mpr rfl,rfl⟩

theorem mem_lang_star_char {cls : α → Bool} {w : List α} :
    w∈(star (char cls)).lang ↔ ∀ a∈w,cls a=true := by
  rw [mem_lang_star]
  constructor
  · rintro ⟨ws,rfl,hws⟩ a ha
    obtain ⟨u,hu,hau⟩ := List.mem_flatten.mp ha
    obtain ⟨b,hb,rfl⟩ := mem_lang_char.mp (hws u hu)
    rwa [List.mem_singleton.mp hau]
  · intro h
    refine ⟨w.map ([·]),(List.flatMap_singleton' w).symm,fun u hu => ?_⟩
    obtain ⟨a,ha,rfl⟩ := List.mem_map.mp hu
    exact mem_lang_char.mpr ⟨a,h a ha,rfl⟩

end Language

end Regex

end FastPki
