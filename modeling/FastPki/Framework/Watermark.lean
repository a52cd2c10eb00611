import Mathlib.Data.List.Basic
import Mathlib.Order.Lattice
import Mathlib.Order.MinMax

namespace FastPki

/-! A log that is read from a mark on, and sent on. -/

section Watermark

variable {ρ π : Type*} [LinearOrder π] {pos : ρ → π} {log sent rows : List ρ} {m start : π}

/-- All of the log up to the mark is sent. -/
def Covered (pos : ρ → π) (log sent : List ρ) (m : π) : Prop := ∀ r∈log,pos r ≤ m → r∈sent

/-- Rows of the log behind `start`, in their order, with none left out between them. -/
structure Batch (pos : ρ → π) (log : List ρ) (start : π) (rows : List ρ) : Prop where
  ascending : rows.Pairwise fun a b => pos a < pos b
  sound : ∀ r∈rows,r∈log ∧ start < pos r
  whole : ∀ r∈log,start < pos r → ∀ q∈rows,pos r ≤ pos q → r∈rows

/-- A new row is behind the mark. -/
theorem Covered.push (h : Covered pos log sent m) {r : ρ} (hr : m < pos r) :
    Covered pos (log++[r]) sent m := by
  intro q hq hle
  obtain hq|hq := List.mem_append.mp hq
  · exact h q hq hle
  · rw [List.mem_singleton.mp hq] at hle
    exact absurd hr (not_lt.mpr hle)

theorem Covered.more (h : Covered pos log sent m) {sent' : List ρ} (hsub : ∀ r∈sent,r∈sent') :
    Covered pos log sent' m := fun r hr hle => hsub r (h r hr hle)

theorem Covered.max (h : Covered pos log sent m) {m' : π} (h' : Covered pos log sent m') :
    Covered pos log sent (max m m') := by
  intro r hr hle
  obtain hle|hle := le_max_iff.mp hle
  · exact h r hr hle
  · exact h' r hr hle

theorem Batch.push (h : Batch pos log start rows) {r : ρ} (hr : ∀ q∈log,pos q < pos r) :
    Batch pos (log++[r]) start rows where
  ascending := h.ascending
  sound q hq := ⟨List.mem_append_left _ (h.sound q hq).1,(h.sound q hq).2⟩
  whole q hq hstart last hlast hle := by
    obtain hq|hq := List.mem_append.mp hq
    · exact h.whole q hq hstart last hlast hle
    · rw [List.mem_singleton.mp hq] at hle
      exact absurd (hr last (h.sound last hlast).1) (not_lt.mpr hle)

/-- The first rows of a batch, once sent, move the mark to the last of them. -/
theorem Covered.advance (h : Covered pos log sent start) (hbatch : Batch pos log start rows)
    {first rest : List ρ} {last : ρ} (hrows : rows=first++last::rest)
    (hsent : ∀ r∈first++[last],r∈sent) : Covered pos log sent (pos last) := by
  intro r hr hle
  obtain hstart|hstart := le_or_gt (pos r) start
  · exact h r hr hstart
  · have hlast : last∈rows := by simp [hrows]
    have hmem := hbatch.whole r hr hstart last hlast hle
    have hpair := hbatch.ascending
    rw [hrows,List.pairwise_append,List.pairwise_cons] at hpair
    rw [hrows,List.mem_append,List.mem_cons] at hmem
    obtain hmem|rfl|hmem := hmem
    · exact hsent r (List.mem_append_left _ hmem)
    · exact hsent r (by simp)
    · exact absurd (hpair.2.1.1 r hmem) (not_lt.mpr hle)

/-- What a query for the rows behind a mark reads of an ascending log, with or without a limit. -/
theorem batch_take_filter (h : log.Pairwise fun a b => pos a < pos b) (start : π) (n : Nat) :
    Batch pos log start ((log.filter fun r => start < pos r).take n) := by
  set behind := log.filter fun r => start < pos r with hbehind
  have hsorted : behind.Pairwise fun a b => pos a < pos b := h.filter _
  refine ⟨hsorted.sublist (List.take_sublist n behind),fun r hr => ?_,fun r hr hstart q hq hle => ?_⟩
  · have hmem := List.mem_of_mem_take hr
    rw [hbehind,List.mem_filter,decide_eq_true_iff] at hmem
    exact hmem
  · have hmem : r∈behind := by
      rw [hbehind,List.mem_filter,decide_eq_true_iff]
      exact ⟨hr,hstart⟩
    rw [← List.take_append_drop n behind,List.mem_append] at hmem
    obtain hmem|hmem := hmem
    · exact hmem
    · rw [← List.take_append_drop n behind,List.pairwise_append] at hsorted
      exact absurd (hsorted.2.2 q hq r hmem) (not_lt.mpr hle)

end Watermark

end FastPki
