import FastPki.Framework.Table
import Mathlib.Data.List.Nodup

namespace FastPki

/-- How a call to a database ends. One that throws may have been carried out all the same. -/
inductive Fate where
  | ok
  | throws (applied : Bool)
  deriving DecidableEq

variable {κ ρ : Type*} {key : ρ → κ}

theorem key_ne_of_nodup {a : ρ} {l : List ρ} (h : ((a::l).map key).Nodup) : ∀ x∈l,key x≠key a := by
  rw [List.map_cons,List.nodup_cons] at h
  intro x hx hsame
  exact h.1 (hsame ▸ List.mem_map_of_mem hx)

/-- A table whose rows are told apart by a primary key. -/
structure Keyed (key : ρ → κ) where
  rows : List ρ
  distinct : (rows.map key).Nodup

namespace Keyed

theorem eq_of_key (t : Keyed key) {x y : ρ} (hx : x∈t.rows) (hy : y∈t.rows)
    (h : key x=key y) : x=y :=
  List.inj_on_of_nodup_map t.distinct hx hy h

variable [DecidableEq κ]

def find (t : Keyed key) (k : κ) : Option ρ := lookup key k t.rows

theorem find_eq_some {t : Keyed key} {k : κ} {r : ρ} :
    t.find k=some r ↔ r∈t.rows ∧ key r=k := by
  constructor
  · intro h
    exact ⟨lookup_mem h,lookup_key h⟩
  · intro h
    obtain ⟨hmem,rfl⟩ := h
    cases hfind : t.find (key r) with
    | none =>
      have hnone : ∀ x∈t.rows,key x≠key r := by simpa [find,lookup] using hfind
      exact absurd rfl (hnone r hmem)
    | some x => rw [t.eq_of_key (lookup_mem hfind) hmem (lookup_key hfind)]

theorem find_of_mem {t : Keyed key} {r : ρ} (h : r∈t.rows) : t.find (key r)=some r :=
  find_eq_some.mpr ⟨h,rfl⟩

/-- `UPDATE .. SET .. WHERE cond`, of columns other than the key. -/
def update (t : Keyed key) (cond : ρ → Bool) (set : ρ → ρ) (hset : ∀ r,key (set r)=key r) :
    Keyed key where
  rows := t.rows.map fun r => if cond r then set r else r
  distinct := by
    rw [List.map_map]
    have hkey : (key ∘ fun r => if cond r then set r else r)=key := by
      funext r
      simp only [Function.comp_apply]
      split_ifs
      · exact hset r
      · rfl
    rw [hkey]
    exact t.distinct

section Update

variable {t : Keyed key} {cond : ρ → Bool} {set : ρ → ρ} {hset : ∀ r,key (set r)=key r}

omit [DecidableEq κ] in
theorem mem_update {x : ρ} :
    x∈(t.update cond set hset).rows ↔ ∃ r∈t.rows,(if cond r then set r else r)=x :=
  List.mem_map

theorem find_update (k : κ) : (t.update cond set hset).find k=
    (t.find k).map fun r => if cond r then set r else r := by
  apply lookup_map
  intro r
  split_ifs
  · exact hset r
  · rfl

end Update

/-- `DELETE .. WHERE cond`. -/
def delete (t : Keyed key) (cond : ρ → Bool) : Keyed key where
  rows := t.rows.filter (!cond ·)
  distinct := t.distinct.sublist (List.filter_sublist.map key)

omit [DecidableEq κ] in
theorem mem_delete {t : Keyed key} {cond : ρ → Bool} {x : ρ} :
    x∈(t.delete cond).rows ↔ x∈t.rows ∧ cond x=false := by
  simp [delete]

theorem find_eq_none {t : Keyed key} {k : κ} : t.find k=none ↔ ∀ x∈t.rows,key x≠k := by
  simp [find,lookup]

/-- `INSERT`; a row of the same key is an error. -/
def insert (t : Keyed key) (r : ρ) : Option (Keyed key) :=
  if h : ∀ x∈t.rows,key x≠key r then
    some ⟨t.rows++[r],by
      rw [List.map_append,List.nodup_append]
      refine ⟨t.distinct,by simp,fun a ha b hb hab => ?_⟩
      obtain ⟨x,hx,rfl⟩ := List.mem_map.mp ha
      rw [List.map_singleton,List.mem_singleton] at hb
      exact h x hx (hab.trans hb)⟩
  else none

theorem insert_eq_some {t u : Keyed key} {r : ρ} (h : t.insert r=some u) :
    (∀ x∈t.rows,key x≠key r) ∧ u.rows=t.rows++[r] := by
  simp only [insert] at h
  split_ifs at h with hfree
  obtain rfl := Option.some.inj h
  exact ⟨hfree,rfl⟩

theorem insert_eq_none {t : Keyed key} {r : ρ} : t.insert r=none ↔ t.find (key r)≠none := by
  rw [ne_eq,find_eq_none]
  by_cases hfree : ∀ x∈t.rows,key x≠key r
  · rw [insert,dif_pos hfree]
    exact iff_of_false (Option.some_ne_none _) (not_not.mpr hfree)
  · rw [insert,dif_neg hfree]
    exact iff_of_true rfl hfree

theorem find_insert {t u : Keyed key} {r : ρ} (h : t.insert r=some u) (k : κ) :
    u.find k=if key r=k then some r else t.find k := by
  obtain ⟨hfree,hrows⟩ := insert_eq_some h
  by_cases hk : key r=k
  · rw [if_pos hk,find_eq_some,hrows]
    exact ⟨by simp,hk⟩
  · rw [if_neg hk,find,find,lookup,lookup,hrows,List.find?_append]
    simp [hk]

end Keyed

end FastPki
