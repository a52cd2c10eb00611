import Mathlib.Tactic.Common

namespace FastPki

variable {κ ρ : Type*} [DecidableEq κ] (key : ρ → κ)

/-- `INSERT .. ON CONFLICT DO UPDATE`: the row replaces the one of its key, or is new. -/
def upsert (r : ρ) (t : List ρ) : List ρ :=
  if t.any fun x => key x = key r then t.map fun x => if key x = key r then r else x else t++[r]

/-- `INSERT .. ON CONFLICT DO NOTHING`: a key that is taken keeps its row. -/
def insertNew (r : ρ) (t : List ρ) : List ρ := if t.any fun x => key x = key r then t else t++[r]

def lookup (k : κ) (t : List ρ) : Option ρ := t.find? fun x => key x = k

def remove (k : κ) (t : List ρ) : List ρ := t.filter fun x => key x ≠ k

variable {key}

theorem mem_upsert {r x : ρ} {t : List ρ} :
    x∈upsert key r t ↔ x=r ∨ (x∈t ∧ key x≠key r) := by
  simp only [upsert]
  split
  · next hany =>
    obtain ⟨y,hy,hkey⟩ : ∃ y∈t,key y=key r := by simpa using hany
    rw [List.mem_map]
    constructor
    · intro h
      obtain ⟨z,hz,rfl⟩ := h
      split
      · exact Or.inl rfl
      · next hne => exact Or.inr ⟨hz,hne⟩
    · intro h
      obtain rfl|⟨hx,hne⟩ := h
      · exact ⟨y,hy,if_pos hkey⟩
      · exact ⟨x,hx,if_neg hne⟩
  · next hany =>
    have hnone : ∀ y∈t,key y≠key r := by simpa using hany
    rw [List.mem_append,List.mem_singleton]
    constructor
    · intro h
      obtain hx|rfl := h
      · exact Or.inr ⟨hx,hnone x hx⟩
      · exact Or.inl rfl
    · intro h
      obtain rfl|⟨hx,_⟩ := h
      · exact Or.inr rfl
      · exact Or.inl hx

theorem mem_insertNew {r x : ρ} {t : List ρ} :
    x∈insertNew key r t ↔ x∈t ∨ (x=r ∧ ∀ y∈t,key y≠key r) := by
  rw [insertNew]
  split_ifs with hany
  · obtain ⟨y,hy,hkey⟩ : ∃ y∈t,key y=key r := by simpa using hany
    constructor
    · exact Or.inl
    · intro h
      obtain hx|⟨_,hfree⟩ := h
      · exact hx
      · exact absurd hkey (hfree y hy)
  · have hfree : ∀ y∈t,key y≠key r := by simpa using hany
    rw [List.mem_append,List.mem_singleton]
    exact or_congr_right (and_iff_left hfree).symm

theorem insertNew_of_fresh {r : ρ} {t : List ρ} (h : ∀ y∈t,key y≠key r) : insertNew key r t=t++[r] := by
  have hnone : (t.any fun x => decide (key x=key r))=false := by simpa using h
  rw [insertNew,hnone]
  rfl

theorem lookup_mem {k : κ} {t : List ρ} {x : ρ} (h : lookup key k t=some x) : x∈t :=
  List.mem_of_find?_eq_some h

theorem lookup_key {k : κ} {t : List ρ} {x : ρ} (h : lookup key k t=some x) : key x=k := by
  simpa using List.find?_some h

theorem lookup_cons (k : κ) (x : ρ) (t : List ρ) :
    lookup key k (x::t)=if key x=k then some x else lookup key k t := by
  simp only [lookup]
  by_cases h : key x=k
  · simp [h]
  · simp [h]

/-- Rewriting rows under their keys rewrites what is found under a key. -/
theorem lookup_map {k : κ} {f : ρ → ρ} (hf : ∀ x,key (f x)=key x) (t : List ρ) :
    lookup key k (t.map f)=(lookup key k t).map f := by
  induction t with
  | nil => rfl
  | cons x t ih =>
    rw [List.map_cons,lookup_cons,lookup_cons,ih,hf]
    split_ifs <;> rfl

theorem lookup_map_replace {k : κ} {r : ρ} {t : List ρ} (hne : key r≠k) :
    lookup key k (t.map fun x => if key x=key r then r else x)=lookup key k t := by
  induction t with
  | nil => rfl
  | cons x t ih =>
    rw [List.map_cons,lookup_cons,lookup_cons,ih]
    by_cases hx : key x=key r
    · simp [hx,hne]
    · simp [hx]

theorem lookup_upsert_self (r : ρ) (t : List ρ) : lookup key (key r) (upsert key r t)=some r := by
  simp only [upsert]
  split
  · next hany =>
    induction t with
    | nil => cases hany
    | cons x t ih =>
      rw [List.map_cons,lookup_cons]
      by_cases hx : key x=key r
      · simp [hx]
      · have hrest : (t.any fun x => decide (key x=key r))=true := by simpa [hx] using hany
        rw [if_neg hx,if_neg hx]
        exact ih hrest
  · next hany =>
    have hnone : t.find? (fun x => decide (key x=key r))=none := by simpa using hany
    rw [lookup,List.find?_append,hnone]
    simp

theorem lookup_upsert_of_ne {k : κ} {r : ρ} (t : List ρ) (hne : key r≠k) :
    lookup key k (upsert key r t)=lookup key k t := by
  simp only [upsert]
  split
  · exact lookup_map_replace hne
  · simp only [lookup]
    rw [List.find?_append]
    simp [hne]

/-- A write by key keeps the keys distinct. -/
theorem nodup_upsert (r : ρ) {t : List ρ} (h : (t.map key).Nodup) : ((upsert key r t).map key).Nodup := by
  simp only [upsert]
  split
  · have hkeys : (t.map fun x => if key x=key r then r else x).map key=t.map key := by
      rw [List.map_map]
      refine List.map_congr_left fun x _ => ?_
      by_cases hx : key x=key r
      · simp [hx]
      · simp [hx]
    rwa [hkeys]
  · next hany =>
    have hnone : ∀ y∈t,key y≠key r := by simpa using hany
    rw [List.map_append,List.nodup_append]
    refine ⟨h,by simp,fun k hk k' hk' heq => ?_⟩
    obtain ⟨y,hy,rfl⟩ := List.mem_map.mp hk
    have hk' : k'=key r := by simpa using hk'
    exact hnone y hy (heq.trans hk')

end FastPki
