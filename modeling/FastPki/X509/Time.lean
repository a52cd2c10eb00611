import Mathlib.Tactic.Common

namespace FastPki.X509

/-- The first second of the year 1900 and the last of the year 9999. -/
def minTime : Int := -2208988800
def maxTime : Int := 253402300799

/-- `X509_gmtime_adj`: the clock moved by `adj` seconds, within the years it can date. -/
def gmtimeAdj (now adj : Int) : Option Int :=
  if minTime ≤ now+adj ∧ now+adj ≤ maxTime then some (now+adj) else none

/-- `ASN1_TIME_set`: any second that `gmtime` can date. A year past 9999 is written out with all its
digits. -/
def asn1TimeSet (t : Int) : Option Int := if t ≤ 67768036191676799 then some t else none

/-- `ASN1_TIME_compare`: -2 where a time cannot be read, as one with more than four digits for the
year. -/
def asn1TimeCompare (a b : Int) : Int :=
  if a > maxTime ∨ b > maxTime then -2 else if a < b then -1 else if a = b then 0 else 1

/-- `ASN1_TIME_diff`: the whole days from one time to another, without the seconds over, where both
can be read. -/
def asn1TimeDiff (first last : Int) : Option Int :=
  if first > maxTime ∨ last > maxTime then none else some ((last-first).tdiv 86400)

theorem gmtimeAdj_eq_some {now adj t : Int} (h : gmtimeAdj now adj=some t) :
    t=now+adj ∧ t ≤ maxTime := by
  simp only [gmtimeAdj] at h
  split_ifs at h with hrange
  have ht := Option.some.inj h
  exact ⟨ht.symm,ht ▸ hrange.2⟩

theorem asn1TimeSet_eq_some {t u : Int} (h : asn1TimeSet t=some u) : u=t := by
  simp only [asn1TimeSet] at h
  split_ifs at h
  exact (Option.some.inj h).symm

theorem asn1TimeCompare_eq_one_iff {a b : Int} :
    asn1TimeCompare a b=1 ↔ a ≤ maxTime ∧ b<a := by
  simp only [asn1TimeCompare]
  split_ifs with hread hlt heq
  · have hnot : ¬(a ≤ maxTime ∧ b<a) := by omega
    simp [hnot]
  · have hnot : ¬(a ≤ maxTime ∧ b<a) := by omega
    simp [hnot]
  · have hnot : ¬(a ≤ maxTime ∧ b<a) := by omega
    simp [hnot]
  · have hyes : a ≤ maxTime ∧ b<a := by omega
    simp [hyes]

end FastPki.X509
