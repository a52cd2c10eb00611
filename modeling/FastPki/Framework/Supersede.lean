import Mathlib.Data.Set.Insert
import Mathlib.Logic.Function.Basic
import Mathlib.Tactic.Common

namespace FastPki.Supersede

variable {ι κ : Type*}

/-- Parties that each issue an item, announce it, look at what the others have announced and strike
that. `heard i j` is history: `j` had looked when `i` announced. -/
structure State (ι κ : Type*) where
  item : ι → Option κ
  announced : ι → Bool
  looked : ι → Bool
  todo : ι → List κ
  struck : Set κ
  heard : ι → ι → Bool

section Inv

variable [DecidableEq ι]

def State.issue (s : State ι κ) (i : ι) (x : κ) : State ι κ :=
  { s with item := Function.update s.item i (some x) }

def State.announce (s : State ι κ) (i : ι) : State ι κ :=
  { s with
    announced := Function.update s.announced i true
    heard := Function.update s.heard i s.looked }

def State.look (s : State ι κ) (i : ι) (found : List κ) : State ι κ :=
  { s with
    looked := Function.update s.looked i true
    todo := Function.update s.todo i found }

def State.strike (s : State ι κ) (i : ι) (x : κ) (rest : List κ) : State ι κ :=
  { s with
    todo := Function.update s.todo i rest
    struck := insert x s.struck }

inductive Step (s : State ι κ) : State ι κ → Prop
  | issue (i : ι) (x : κ) (hnone : s.item i=none) (hfresh : ∀ j,s.item j≠some x)
      (htodo : ∀ j,x∉s.todo j) (hstruck : x∉s.struck) : Step s (s.issue i x)
  | announce (i : ι) (hitem : (s.item i).isSome) (hfirst : s.announced i=false) :
      Step s (s.announce i)
  | look (i : ι) (found : List κ) (hannounced : s.announced i=true) (hfirst : s.looked i=false)
      (hall : ∀ j≠i,s.announced j=true → ∀ x∈s.item j,x∈found)
      (honly : ∀ x∈found,∀ j,s.item j=some x → j≠i ∧ s.announced j=true) : Step s (s.look i found)
  | strike (i : ι) (x : κ) (rest : List κ) (htodo : s.todo i=x::rest) : Step s (s.strike i x rest)

omit [DecidableEq ι] in
/-- An item that a party has still to strike was announced by another party, and not by one that
heard of its look; what is struck was looked at so; and what was announced is missed by those looks
alone that were heard of. -/
structure Inv (s : State ι κ) : Prop where
  announced : ∀ i,s.looked i=true → s.announced i=true
  item : ∀ i,s.announced i=true → (s.item i).isSome
  distinct : ∀ i j x,s.item i=some x → s.item j=some x → i=j
  todo : ∀ j,∀ x∈s.todo j,s.looked j=true ∧ ∀ i,s.item i=some x →
    i≠j ∧ s.announced i=true ∧ s.heard i j=false
  struck : ∀ i,∀ x∈s.item i,x∈s.struck → s.announced i=true ∧
    ∃ j,j≠i ∧ s.looked j=true ∧ s.heard i j=false
  missed : ∀ i j,j≠i → s.announced i=true → s.looked j=true → ∀ x∈s.item i,
    s.heard i j=true ∨ x∈s.todo j ∨ x∈s.struck
  heard : ∀ i j,s.heard i j=true → s.looked j=true
  asymm : ∀ i j,s.heard i j=true → s.heard j i=false

variable {s : State ι κ} {i : ι}

omit [DecidableEq ι] in
/-- Nobody has heard of a look that was not taken. -/
theorem Inv.unheard (h : Inv s) (hlook : s.looked i=false) (j : ι) : s.heard j i=false := by
  by_contra hheard
  rw [h.heard j i (by simpa using hheard)] at hlook
  cases hlook

omit [DecidableEq ι] in
theorem ne_of_announced {k : ι} (hfirst : s.announced i=false) (hann : s.announced k=true) :
    k≠i := by
  rintro rfl
  rw [hfirst] at hann
  cases hann

theorem inv_issue {x : κ} (h : Inv s) (hnone : s.item i=none) (hfresh : ∀ j,s.item j≠some x)
    (htodo : ∀ j,x∉s.todo j) (hstruck : x∉s.struck) : Inv (s.issue i x) where
  announced := h.announced
  heard := h.heard
  asymm := h.asymm
  item := by
    intro j hj
    by_cases hji : j=i
    · simp [State.issue,hji]
    · simpa [State.issue,hji] using h.item j hj
  distinct := by
    intro j k y hj hk
    simp only [State.issue,Function.update_apply] at hj hk
    split_ifs at hj hk with hji hki hki
    · exact hji.trans hki.symm
    · rw [← hj] at hk
      exact absurd hk (hfresh k)
    · rw [← hk] at hj
      exact absurd hj (hfresh j)
    · exact h.distinct j k y hj hk
  todo := by
    intro j y hy
    refine ⟨(h.todo j y hy).1,fun k hk => ?_⟩
    simp only [State.issue,Function.update_apply] at hk
    split_ifs at hk
    · obtain rfl := Option.some.inj hk
      exact absurd hy (htodo j)
    · exact (h.todo j y hy).2 k hk
  struck := by
    intro j y hy hs
    simp only [State.issue,Function.update_apply] at hy
    split_ifs at hy
    · obtain rfl := Option.some.inj hy
      exact absurd hs hstruck
    · exact h.struck j y hy hs
  missed := by
    intro j k hkj hann hlook y hy
    have hji : j≠i := by
      rintro rfl
      have hsome := h.item j hann
      rw [hnone] at hsome
      cases hsome
    simp only [State.issue,Function.update_of_ne hji] at hy
    exact h.missed j k hkj hann hlook y hy

theorem inv_announce (h : Inv s) (hitem : (s.item i).isSome) (hfirst : s.announced i=false) :
    Inv (s.announce i) where
  distinct := h.distinct
  announced := by
    intro j hj
    by_cases hji : j=i
    · simp [State.announce,hji]
    · simpa [State.announce,hji] using h.announced j hj
  item := by
    intro j hj
    by_cases hji : j=i
    · subst hji
      exact hitem
    · exact h.item j (by simpa [State.announce,hji] using hj)
  todo := by
    intro j y hy
    refine ⟨(h.todo j y hy).1,fun k hk => ?_⟩
    obtain ⟨hkj,hann,hheard⟩ := (h.todo j y hy).2 k hk
    have hki : k≠i := ne_of_announced hfirst hann
    refine ⟨hkj,?_,?_⟩
    · simpa [State.announce,hki] using hann
    · simpa [State.announce,hki] using hheard
  struck := by
    intro j y hy hs
    obtain ⟨hann,k,hkj,hlook,hheard⟩ := h.struck j y hy hs
    have hji : j≠i := ne_of_announced hfirst hann
    refine ⟨by simpa [State.announce,hji] using hann,k,hkj,hlook,?_⟩
    simpa [State.announce,hji] using hheard
  missed := by
    intro j k hkj hann hlook y hy
    by_cases hji : j=i
    · -- the party that announces hears of every look so far
      subst hji
      left
      simpa [State.announce] using hlook
    · have hann' : s.announced j=true := by simpa [State.announce,hji] using hann
      simpa [State.announce,hji] using h.missed j k hkj hann' hlook y hy
  heard := by
    intro j k hjk
    by_cases hji : j=i
    · simpa [State.announce,hji] using hjk
    · exact h.heard j k (by simpa [State.announce,hji] using hjk)
  asymm := by
    -- the party that announces has not looked, so nobody has heard of its look
    have hlook : s.looked i=false := by
      by_contra hl
      rw [h.announced i (by simpa using hl)] at hfirst
      cases hfirst
    have hunheard : ∀ j,s.heard j i=false := h.unheard hlook
    intro j k hjk
    by_cases hji : j=i
    · subst hji
      by_cases hkj : k=j
      · subst hkj
        simpa [State.announce] using hlook
      · simpa [State.announce,hkj] using hunheard k
    · by_cases hki : k=i
      · subst hki
        have hold : s.heard j k=true := by simpa [State.announce,hji] using hjk
        rw [hunheard j] at hold
        cases hold
      · have hold : s.heard j k=true := by simpa [State.announce,hji] using hjk
        simpa [State.announce,hki] using h.asymm j k hold

theorem inv_look {found : List κ} (h : Inv s) (hannounced : s.announced i=true)
    (hfirst : s.looked i=false) (hall : ∀ j≠i,s.announced j=true → ∀ x∈s.item j,x∈found)
    (honly : ∀ x∈found,∀ j,s.item j=some x → j≠i ∧ s.announced j=true) : Inv (s.look i found) where
  item := h.item
  distinct := h.distinct
  asymm := h.asymm
  announced := by
    intro j hj
    by_cases hji : j=i
    · subst hji
      exact hannounced
    · exact h.announced j (by simpa [State.look,hji] using hj)
  todo := by
    intro j y hy
    by_cases hji : j=i
    · subst hji
      simp only [State.look,Function.update_self] at hy ⊢
      refine ⟨trivial,fun k hk => ?_⟩
      obtain ⟨hkj,hann⟩ := honly y hy k hk
      exact ⟨hkj,hann,h.unheard hfirst k⟩
    · simpa [State.look,hji] using h.todo j y (by simpa [State.look,hji] using hy)
  struck := by
    intro j y hy hs
    obtain ⟨hann,k,hkj,hlook,hheard⟩ := h.struck j y hy hs
    refine ⟨hann,k,hkj,?_,hheard⟩
    by_cases hki : k=i
    · simp [State.look,hki]
    · simpa [State.look,hki] using hlook
  missed := by
    intro j k hkj hann hlook y hy
    by_cases hki : k=i
    · subst hki
      right; left
      simpa [State.look] using hall j (fun hjk => hkj hjk.symm) hann y hy
    · simpa [State.look,hki] using
        h.missed j k hkj hann (by simpa [State.look,hki] using hlook) y hy
  heard := by
    intro j k hjk
    by_cases hki : k=i
    · simp [State.look,hki]
    · simpa [State.look,hki] using h.heard j k hjk

theorem inv_strike {x : κ} {rest : List κ} (h : Inv s) (htodo : s.todo i=x::rest) :
    Inv (s.strike i x rest) where
  announced := h.announced
  item := h.item
  distinct := h.distinct
  heard := h.heard
  asymm := h.asymm
  todo := by
    intro j y hy
    by_cases hji : j=i
    · subst hji
      simp only [State.strike,Function.update_self] at hy
      have hy' : y∈s.todo j := by
        rw [htodo]
        exact List.mem_cons_of_mem _ hy
      exact h.todo j y hy'
    · exact h.todo j y (by simpa [State.strike,hji] using hy)
  struck := by
    intro j y hy hs
    obtain rfl|hs := Set.mem_insert_iff.mp hs
    · have hmem : y∈s.todo i := by simp [htodo]
      obtain ⟨hlook,hothers⟩ := h.todo i y hmem
      obtain ⟨hji,hann,hheard⟩ := hothers j hy
      exact ⟨hann,i,fun hij => hji hij.symm,hlook,hheard⟩
    · exact h.struck j y hy hs
  missed := by
    intro j k hkj hann hlook y hy
    obtain hheard|hleft|hs := h.missed j k hkj hann hlook y hy
    · exact Or.inl hheard
    · by_cases hki : k=i
      · subst hki
        rw [htodo] at hleft
        obtain rfl|hrest := List.mem_cons.mp hleft
        · exact Or.inr (Or.inr (Set.mem_insert ..))
        · refine Or.inr (Or.inl ?_)
          simpa [State.strike] using hrest
      · refine Or.inr (Or.inl ?_)
        simpa [State.strike,hki] using hleft
    · exact Or.inr (Or.inr (Set.mem_insert_of_mem _ hs))

theorem inv_step {t : State ι κ} (h : Inv s) (hstep : Step s t) : Inv t := by
  cases hstep with
  | issue i x hnone hfresh htodo hstruck => exact inv_issue h hnone hfresh htodo hstruck
  | announce i hitem hfirst => exact inv_announce h hitem hfirst
  | look i found hannounced hfirst hall honly => exact inv_look h hannounced hfirst hall honly
  | strike i x rest htodo => exact inv_strike h htodo

end Inv

/-- Nobody has issued; some items may be struck all the same. -/
def State.init (struck : Set κ) : State ι κ :=
  ⟨fun _ => none,fun _ => false,fun _ => false,fun _ => [],struck,fun _ _ => false⟩

theorem inv_init (struck : Set κ) : Inv (State.init struck : State ι κ) := by
  constructor
  all_goals simp [State.init]

/-- Every party that has issued is through. -/
def Settled (s : State ι κ) : Prop := ∀ i,(s.item i).isSome → s.looked i=true ∧ s.todo i=[]

/-- One of the parties that have issued announced when all the others had looked. -/
def LastWord (s : State ι κ) : Prop :=
  ∃ i,(s.item i).isSome ∧ ∀ j,(s.item j).isSome → j≠i → s.heard i j=true

/-- Exactly one item is left when all are through, exactly if one party had the last word. -/
theorem exactly_one_left_iff {s : State ι κ} (h : Inv s) (hsettled : Settled s) :
    (∃! x,(∃ i,s.item i=some x) ∧ x∉s.struck) ↔ LastWord s := by
  have hmissed : ∀ i j x,j≠i → s.item i=some x → (s.item j).isSome → x∉s.struck →
      s.heard i j=true := by
    intro i j x hji hi hj hx
    have hann : s.announced i=true := h.announced i (hsettled i (by simp [hi])).1
    obtain hheard|hleft|hs := h.missed i j hji hann (hsettled j hj).1 x hi
    · exact hheard
    · rw [(hsettled j hj).2] at hleft
      cases hleft
    · exact absurd hs hx
  constructor
  · intro hone
    obtain ⟨x,⟨⟨i,hi⟩,hx⟩,_⟩ := hone
    exact ⟨i,by simp [hi],fun j hj hji => hmissed i j x hji hi hj hx⟩
  · intro hlast
    obtain ⟨i,hi,hothers⟩ := hlast
    obtain ⟨x,hx⟩ := Option.isSome_iff_exists.mp hi
    refine ⟨x,⟨⟨i,hx⟩,fun hstruck => ?_⟩,fun y hy => ?_⟩
    · obtain ⟨_,j,hji,hlook,hheard⟩ := h.struck i x hx hstruck
      rw [hothers j (h.item j (h.announced j hlook)) hji] at hheard
      cases hheard
    · obtain ⟨⟨j,hj⟩,hstruck⟩ := hy
      by_cases hji : j=i
      · subst hji
        rw [hx] at hj
        exact (Option.some.inj hj).symm
      · -- the two cannot have heard of each other
        have hback := hmissed j i y (fun hij => hji hij.symm) hj hi hstruck
        have hforth := hothers j (by simp [hj]) hji
        rw [h.asymm j i hback] at hforth
        cases hforth

end FastPki.Supersede
