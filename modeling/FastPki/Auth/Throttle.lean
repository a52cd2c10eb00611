import FastPki.Auth.Subject
import FastPki.Framework.Ascii
import FastPki.Framework.Evict
import FastPki.Framework.Run
import FastPki.Framework.Table
import Mathlib.Order.Lattice

namespace FastPki.Auth
open X509

def trimLeft (s : Octets) : Octets := Ascii.stripLeft Ascii.isWhite s
def trimRight (s : Octets) : Octets := Ascii.stripRight Ascii.isWhite s

/-- The account under one spelling, without regard to letter case and outer blanks. -/
def acctKey (account : Octets) : Octets :=
  octets "u:"++(trimRight (trimLeft account)).map asciiLower

def addrKey (address : Octets) : Octets := octets "a:"++address

structure LoginThrottle.Entry where
  failures : Nat
  last : Int
  deriving DecidableEq

structure LoginThrottle where
  keys : List (Octets × LoginThrottle.Entry)
  threshold : Int
  maxWait : Int
  maxKeys : Nat
  clockSkew : Int

namespace LoginThrottle

def init : LoginThrottle := ⟨[],5,300,20000,0⟩

/-- `steady` is the steady clock, in seconds. -/
def now (s : LoginThrottle) (steady : Int) : Int := steady+s.clockSkew

def waitFor (s : LoginThrottle) (e : Entry) (t : Int) : Int :=
  if e.failures ≤ s.threshold then 0
  else
    let beyond := e.failures-s.threshold
    let doubled : Int := if beyond ≥ 20 then s.maxWait else (1 <<< (beyond-1).toNat : Nat)
    let window := if doubled > s.maxWait then s.maxWait else doubled
    let elapsed := t-e.last
    if elapsed ≥ window then 0 else window-elapsed

/-- An entry that is dead weight. -/
def expired (s : LoginThrottle) (t : Int) (e : Entry) : Bool :=
  s.waitFor e t = 0 ∧ t-e.last > s.maxWait

/-- The order of the pairs `(last, key)`. -/
def byAge (a b : Octets × Entry) : Bool :=
  a.2.last < b.2.last ∨ (a.2.last = b.2.last ∧ a.1 ≤ b.1)

/-- Half of the bound is left where the dead weight was not enough. -/
def evictLocked (s : LoginThrottle) (t : Int) : LoginThrottle :=
  if s.keys.length ≤ s.maxKeys then s
  else
    let live := s.keys.filter fun k => !s.expired t k.2
    if live.length ≤ s.maxKeys then { s with keys := live }
    else { s with keys := evictLeast Prod.fst byAge (live.length-s.maxKeys/2) live }

/-- An empty account or address has no key. -/
def keysOf (account clientIp : Octets) : List Octets :=
  [acctKey account,addrKey clientIp].filter (·.length > 2)

def retryAfter (s : LoginThrottle) (steady : Int) (account clientIp : Octets) : Int :=
  (keysOf account clientIp).foldl (fun worst k =>
    (lookup Prod.fst k s.keys).elim worst fun x => max worst (s.waitFor x.2 (s.now steady))) 0

/-- The counter saturates. -/
def countFailure (t : Int) (keys : List (Octets × Entry)) (k : Octets) : List (Octets × Entry) :=
  let failures := ((lookup Prod.fst k keys).map (·.2.failures)).getD 0
  upsert Prod.fst (k,⟨if failures < 1000 then failures+1 else failures,t⟩) keys

def counted (s : LoginThrottle) (t : Int) (ks : List Octets) : LoginThrottle :=
  { s with keys := ks.foldl (countFailure t) s.keys }

def recordFailure (s : LoginThrottle) (steady : Int) (account clientIp : Octets) : LoginThrottle :=
  (s.counted (s.now steady) (keysOf account clientIp)).evictLocked (s.now steady)

def recordSuccess (s : LoginThrottle) (account clientIp : Octets) : LoginThrottle :=
  { s with keys := (keysOf account clientIp).foldl (fun keys k => remove Prod.fst k keys) s.keys }

def configure (s : LoginThrottle) (loginFailureThreshold loginLockoutSec : Int) : LoginThrottle :=
  { s with
    threshold := if loginFailureThreshold > 0 then loginFailureThreshold else 5
    maxWait := if loginLockoutSec > 0 then loginLockoutSec else 300 }

def reset (s : LoginThrottle) : LoginThrottle := { s with keys := [],clockSkew := 0 }

def advanceClockForTest (s : LoginThrottle) (sec : Int) : LoginThrottle :=
  { s with clockSkew := s.clockSkew+sec }

inductive Op where
  | retryAfter (account clientIp : Octets)
  | recordFailure (account clientIp : Octets)
  | recordSuccess (account clientIp : Octets)
  | configure (loginFailureThreshold loginLockoutSec : Int)
  | reset
  | advanceClockForTest (sec : Int)

/-- One operation, at a second of the steady clock. -/
def step (s : LoginThrottle) : Op × Int → LoginThrottle
  | (.retryAfter _ _,_) => s
  | (.recordFailure account clientIp,steady) => s.recordFailure steady account clientIp
  | (.recordSuccess account clientIp,_) => s.recordSuccess account clientIp
  | (.configure threshold lockout,_) => s.configure threshold lockout
  | (.reset,_) => s.reset
  | (.advanceClockForTest sec,_) => s.advanceClockForTest sec

/-- What the clock reads at each operation of a run. -/
def readings : LoginThrottle → List (Op × Int) → List Int
  | _,[] => []
  | s,a::as => s.now a.2::readings (s.step a) as

/-- The entries an operation writes. -/
def touched : Op → List Octets
  | .recordFailure account clientIp => keysOf account clientIp
  | _ => []

/-- After the operation the map is within its bound, and what the operation wrote is there. -/
def Harmless (s : LoginThrottle) (a : Op × Int) : Prop :=
  (s.step a).keys.length≤ s.maxKeys ∧ ∀ k∈touched a.1,k∈(s.step a).keys.map Prod.fst

/-- The entries that an operation on these keys does not write. -/
def others (s : LoginThrottle) (ks : List Octets) : List (Octets × Entry) :=
  s.keys.filter fun x => !ks.contains x.1

/-- The keys that sort behind a `k` of this second, those of the map and those of the operation
itself. Where the clock does not go back they are all of this very second. -/
def rivals (s : LoginThrottle) (t : Int) (ks : List Octets) (k : Octets) : Nat :=
  ((s.others ks).filter fun x => t < x.2.last ∨ (x.2.last = t ∧ k < x.1)).length+
    (ks.filter (k < ·)).length

/-- Without the dead weight the map has room for the keys of the operation, or fewer than half the
bound sort behind each of them. -/
def Roomy (s : LoginThrottle) (a : Op × Int) : Prop :=
  let ks := touched a.1
  let t := s.now a.2
  ((s.others ks).filter fun x => !s.expired t x.2).length+ks.length ≤ s.maxKeys ∨
    ∀ k∈ks,s.rivals t ks k < s.maxKeys/2

/-- What every run keeps. -/
structure Sound (s : LoginThrottle) : Prop where
  nodup : (s.keys.map Prod.fst).Nodup
  bounded : s.keys.length≤ s.maxKeys
  wait_pos : 0 < s.maxWait

section Counted

variable {t : Int} {keys : List (Octets × Entry)} {ks : List Octets}

theorem mem_countFailure {k : Octets} {x : Octets × Entry} (h : x∈countFailure t keys k) :
    (x.1=k ∧ x.2.last=t) ∨ (x∈keys ∧ x.1≠k) := by
  obtain rfl|hx := mem_upsert.mp h
  · exact Or.inl ⟨rfl,rfl⟩
  · exact Or.inr hx

theorem fst_mem_countFailure (k : Octets) : k∈(countFailure t keys k).map Prod.fst :=
  List.mem_map.mpr ⟨_,mem_upsert.mpr (Or.inl rfl),rfl⟩

theorem mem_foldl_countFailure {x : Octets × Entry} (h : x∈ks.foldl (countFailure t) keys) :
    (x.1∈ks ∧ x.2.last=t) ∨ (x∈keys ∧ x.1∉ks) := by
  induction ks generalizing keys with
  | nil => exact Or.inr ⟨h,List.not_mem_nil⟩
  | cons k ks ih =>
    obtain ⟨hks,hlast⟩|⟨hx,hks⟩ := ih h
    · exact Or.inl ⟨List.mem_cons_of_mem _ hks,hlast⟩
    · obtain ⟨hk,hlast⟩|⟨hx,hne⟩ := mem_countFailure hx
      · exact Or.inl ⟨hk ▸ List.mem_cons_self,hlast⟩
      · exact Or.inr ⟨hx,fun hin => (List.mem_cons.mp hin).elim hne hks⟩

theorem mem_foldl_countFailure_of_mem {x : Octets × Entry} (hx : x∈keys) (hks : x.1∉ks) :
    x∈ks.foldl (countFailure t) keys := by
  induction ks generalizing keys with
  | nil => exact hx
  | cons k ks ih =>
    obtain ⟨hne,hks⟩ := not_or.mp fun h => hks (List.mem_cons.mpr h)
    exact ih (mem_upsert.mpr (Or.inr ⟨hx,hne⟩)) hks

theorem fst_mem_foldl_countFailure {k : Octets} (h : k∈ks ∨ k∈keys.map Prod.fst) :
    k∈(ks.foldl (countFailure t) keys).map Prod.fst := by
  induction ks generalizing keys with
  | nil => exact h.resolve_left List.not_mem_nil
  | cons k' ks ih =>
    apply ih
    by_cases hk : k=k'
    · rw [hk]
      exact Or.inr (fst_mem_countFailure k')
    · obtain hks|hin := h
      · exact Or.inl ((List.mem_cons.mp hks).resolve_left hk)
      · obtain ⟨x,hx,rfl⟩ := List.mem_map.mp hin
        exact Or.inr (List.mem_map_of_mem (mem_upsert.mpr (Or.inr ⟨hx,hk⟩)))

theorem nodup_foldl_countFailure (h : (keys.map Prod.fst).Nodup) :
    ((ks.foldl (countFailure t) keys).map Prod.fst).Nodup := by
  induction ks generalizing keys with
  | nil => exact h
  | cons k ks ih => exact ih (nodup_upsert _ h)

/-- The rows that were written and meet `p` are as many as their keys. -/
theorem length_written (h : (keys.map Prod.fst).Nodup) (hks : ks.Nodup) (p : Octets → Bool) :
    ((ks.foldl (countFailure t) keys).filter fun x => x.1∈ks ∧ p x.1).length=
      (ks.filter p).length := by
  have hnodup := (List.filter_sublist (l := ks.foldl (countFailure t) keys)
    (p := fun x => decide (x.1∈ks ∧ p x.1))).map Prod.fst
  have hperm : (((ks.foldl (countFailure t) keys).filter fun x => x.1∈ks ∧ p x.1).map
      Prod.fst).Perm (ks.filter p) := by
    rw [List.perm_ext_iff_of_nodup (hnodup.nodup (nodup_foldl_countFailure h)) (hks.filter _)]
    intro k
    rw [List.mem_map,List.mem_filter]
    constructor
    · intro hk
      obtain ⟨x,hx,rfl⟩ := hk
      simpa using (List.mem_filter.mp hx).2
    · intro hk
      obtain ⟨x,hx,rfl⟩ := List.mem_map.mp
        (@fst_mem_foldl_countFailure t keys ks k (Or.inl hk.1))
      exact ⟨x,List.mem_filter.mpr ⟨hx,by simpa using hk⟩,rfl⟩
  rw [← hperm.length_eq,List.length_map]

/-- The rows that were not written are those of before. -/
theorem length_unwritten (h : (keys.map Prod.fst).Nodup) (p : Octets × Entry → Bool) :
    ((ks.foldl (countFailure t) keys).filter fun x => x.1∉ks ∧ p x).length=
      (keys.filter fun x => x.1∉ks ∧ p x).length := by
  apply List.Perm.length_eq
  rw [List.perm_ext_iff_of_nodup ((nodup_foldl_countFailure h).of_map.filter _) (h.of_map.filter _)]
  intro x
  simp only [List.mem_filter,decide_eq_true_eq]
  constructor
  · intro hx
    obtain ⟨hks,_⟩|hold := mem_foldl_countFailure hx.1
    · exact absurd hks hx.2.1
    · exact ⟨hold.1,hx.2⟩
  · intro hx
    exact ⟨mem_foldl_countFailure_of_mem hx.1 hx.2.1,hx.2⟩

/-- Rows are counted apart by whether they were written. -/
theorem length_filter_counted (h : (keys.map Prod.fst).Nodup) (hks : ks.Nodup)
    (p : Octets × Entry → Bool) (q : Octets → Bool) (hpq : ∀ x : Octets × Entry,x.2.last=t →
      x.1∈ks → p x=q x.1) :
    ((ks.foldl (countFailure t) keys).filter p).length=
      (keys.filter fun x => x.1∉ks ∧ p x).length+(ks.filter q).length := by
  rw [← length_unwritten h p,← length_written h hks q]
  have hsplit (l : List (Octets × Entry)) (hl : ∀ x∈l,x.1∈ks → p x=q x.1) :
      (l.filter p).length=(l.filter fun x => x.1∉ks ∧ p x).length+
        (l.filter fun x => x.1∈ks ∧ q x.1).length := by
    induction l with
    | nil => rfl
    | cons x l ih =>
      have htail := ih fun y hy => hl y (List.mem_cons_of_mem _ hy)
      have hhead := hl x List.mem_cons_self
      by_cases hin : x.1∈ks
      · have hpx := hhead hin
        cases hq : q x.1 with
        | false => simp [hin,hpx,hq,htail]
        | true => simp [hin,hpx,hq,htail]; omega
      · cases hp : p x with
        | false => simp [hin,hp,htail]
        | true => simp [hin,hp,htail]; omega
  refine hsplit _ fun x hx hin => hpq x ?_ hin
  obtain ⟨_,hlast⟩|⟨_,hnot⟩ := mem_foldl_countFailure hx
  · exact hlast
  · exact absurd hin hnot

end Counted

section Order

theorem byAge_iff {a b : Octets × Entry} :
    byAge a b=true ↔ a.2.last<b.2.last ∨ (a.2.last=b.2.last ∧ a.1 ≤ b.1) := by
  simp [byAge]

theorem byAge_trans (a b c : Octets × Entry) (hab : byAge a b) (hbc : byAge b c) : byAge a c := by
  rw [byAge_iff] at *
  obtain hab|⟨hab,hk⟩ := hab
  · left
    omega
  · obtain hbc|⟨hbc,hk'⟩ := hbc
    · left
      omega
    · exact Or.inr ⟨hab.trans hbc,List.le_trans hk hk'⟩

theorem byAge_total (a b : Octets × Entry) : byAge a b || byAge b a := by
  rw [Bool.or_eq_true,byAge_iff,byAge_iff]
  obtain hlt|heq|hlt := lt_trichotomy a.2.last b.2.last
  · exact Or.inl (Or.inl hlt)
  · obtain hk|hk := List.le_total a.1 b.1
    · exact Or.inl (Or.inr ⟨heq,hk⟩)
    · exact Or.inr (Or.inr ⟨heq.symm,hk⟩)
  · exact Or.inr (Or.inl hlt)

theorem byAge_antisymm {l : List (Octets × Entry)} (h : (l.map Prod.fst).Nodup) :
    ∀ a∈l,∀ b∈l,byAge a b → byAge b a → a=b := by
  intro a ha b hb hab hba
  rw [byAge_iff] at hab hba
  have hkeys : a.1=b.1 := by
    obtain hab|⟨hab,hk⟩ := hab
    · omega
    · obtain hba|⟨_,hk'⟩ := hba
      · omega
      · exact List.le_antisymm hk hk'
  exact List.inj_on_of_nodup_map h ha hb hkeys

end Order

theorem nodup_keysOf (account clientIp : Octets) : (keysOf account clientIp).Nodup := by
  have hne : acctKey account≠addrKey clientIp := by
    intro heq
    have := congrArg List.head? heq
    exact absurd this (by change some 0x75≠some 0x61; decide)
  have hpair : [acctKey account,addrKey clientIp].Nodup := by simpa using hne
  exact hpair.filter _

theorem not_expired {s : LoginThrottle} (hs : 0 < s.maxWait) {t : Int} {e : Entry} (he : t ≤ e.last) :
    s.expired t e=false := by
  have : ¬t-e.last>s.maxWait := by omega
  simp [expired,this]

theorem filter_others (s : LoginThrottle) (ks : List Octets) (p : Octets × Entry → Bool) :
    (s.others ks).filter p=s.keys.filter fun x => x.1∉ks ∧ p x := by
  rw [others,List.filter_filter]
  refine List.filter_congr fun x _ => ?_
  rw [Bool.eq_iff_iff]
  simp [and_comm]

section Step

variable {s : LoginThrottle} (hs : s.Sound) {t : Int} {ks : List Octets} (hks : ks.Nodup)
include hs hks

/-- What is live after the keys of an operation were written. -/
theorem length_live : ((s.counted t ks).keys.filter fun x => !s.expired t x.2).length=
    ((s.others ks).filter fun x => !s.expired t x.2).length+ks.length := by
  have hcount := length_filter_counted hs.nodup hks (fun x => !s.expired t x.2) (fun _ => true)
    (t := t) fun x hx _ => by rw [not_expired hs.wait_pos hx.ge]; rfl
  rw [List.filter_true] at hcount
  rw [filter_others]
  exact hcount

/-- What is younger than a key just written. -/
theorem length_younger {k : Octets} {e : Entry} (he : e.last=t) :
    (((s.counted t ks).keys.filter fun x => !s.expired t x.2).filter
      fun y => !byAge y (k,e)).length=s.rivals t ks k := by
  have hcount := length_filter_counted hs.nodup hks
    (fun y => decide (t<y.2.last ∨ (y.2.last=t ∧ k<y.1))) (fun k' => k<k') (t := t)
    fun x hx _ => by simp [hx]
  have hsame : ((s.counted t ks).keys.filter fun x => !s.expired t x.2).filter
      (fun y => !byAge y (k,e))=
        (s.counted t ks).keys.filter fun y => t<y.2.last ∨ (y.2.last=t ∧ k<y.1) := by
    rw [List.filter_filter]
    refine List.filter_congr fun y hy => ?_
    rw [Bool.eq_iff_iff,Bool.and_eq_true,decide_eq_true_eq,Bool.not_eq_true',Bool.not_eq_true',
      Bool.eq_false_iff,ne_eq,byAge_iff,he,not_or,not_and,List.not_le]
    constructor
    · intro h
      obtain hlt|heq := (Int.not_lt.mp h.1.1).lt_or_eq
      · exact Or.inl hlt
      · exact Or.inr ⟨heq.symm,h.1.2 heq.symm⟩
    · intro h
      have hlast : t ≤ y.2.last := by
        obtain hlt|⟨heq,_⟩ := h
        · exact hlt.le
        · exact heq.ge
      refine ⟨⟨Int.not_lt.mpr hlast,fun heq => ?_⟩,not_expired hs.wait_pos hlast⟩
      obtain hlt|⟨_,hk⟩ := h
      · omega
      · exact hk
  rw [hsame,rivals,filter_others]
  exact hcount

omit hks in
/-- A key that was written has one row, of this second. -/
theorem exists_row {k : Octets} (hk : k∈ks) : ∃ e : Entry,e.last=t ∧ (k,e)∈(s.counted t ks).keys ∧
    ∀ l : List (Octets × Entry),l.Sublist (s.counted t ks).keys →
      (k∈l.map Prod.fst ↔ (k,e)∈l) := by
  obtain ⟨⟨_,e⟩,hx,rfl⟩ := List.mem_map.mp (@fst_mem_foldl_countFailure t s.keys ks k (Or.inl hk))
  have hlast : e.last=t := by
    obtain ⟨_,hlast⟩|⟨_,hnot⟩ := mem_foldl_countFailure hx
    · exact hlast
    · exact absurd hk hnot
  refine ⟨e,hlast,hx,fun l hl => ⟨fun hin => ?_,fun hin => List.mem_map_of_mem hin⟩⟩
  obtain ⟨y,hy,heq⟩ := List.mem_map.mp hin
  have hsame := List.inj_on_of_nodup_map (nodup_foldl_countFailure hs.nodup) (hl.subset hy) hx heq
  exact hsame ▸ hy

/-- What an operation wrote outlasts the eviction exactly when there is room for it. -/
theorem evictLocked_keeps_iff :
    (∀ k∈ks,k∈((s.counted t ks).evictLocked t).keys.map Prod.fst) ↔
      ((s.others ks).filter fun x => !s.expired t x.2).length+ks.length ≤ s.maxKeys ∨
        ∀ k∈ks,s.rivals t ks k < s.maxKeys/2 := by
  set live := (s.counted t ks).keys.filter fun x => !s.expired t x.2 with hlive
  have hlen : live.length=_ := length_live hs hks
  have hsub : live.Sublist (s.counted t ks).keys := List.filter_sublist
  have hnodup : (live.map Prod.fst).Nodup :=
    (hsub.map Prod.fst).nodup (nodup_foldl_countFailure hs.nodup)
  have hin (k : Octets) (e : Entry) (he : e.last=t) (hrow : (k,e)∈(s.counted t ks).keys) :
      (k,e)∈live := by
    refine List.mem_filter.mpr ⟨hrow,?_⟩
    rw [not_expired hs.wait_pos he.ge]
    rfl
  rw [← hlen]
  by_cases hroom : live.length ≤ s.maxKeys
  · refine iff_of_true (fun k hk => ?_) (Or.inl hroom)
    obtain ⟨e,he,hrow,_⟩ := exists_row (t := t) hs hk
    have hkept : (k,e)∈((s.counted t ks).evictLocked t).keys := by
      simp only [evictLocked]
      split
      · exact hrow
      · split
        · exact hin k e he hrow
        · next hno => exact absurd hroom hno
    exact List.mem_map_of_mem hkept
  · have hfull : ¬(s.counted t ks).keys.length ≤ s.maxKeys := by
      have := hsub.length_le
      omega
    have hevict : ((s.counted t ks).evictLocked t).keys=
        evictLeast Prod.fst byAge (live.length-s.maxKeys/2) live := by
      have hfull' : ¬(s.counted t ks).keys.length ≤ (s.counted t ks).maxKeys := hfull
      rw [evictLocked,if_neg hfull']
      exact congrArg keys (if_neg hroom)
    rw [hevict,or_iff_right hroom]
    refine forall₂_congr fun k hk => ?_
    obtain ⟨e,he,hrow,huniq⟩ := exists_row (t := t) hs hk
    rw [huniq _ (evictLeast_sublist.trans hsub),
      mem_evictLeast_iff byAge_trans byAge_total (byAge_antisymm hnodup) hnodup (hin k e he hrow),
      length_younger hs hks he]
    omega

end Step

theorem evictLocked_sublist (s : LoginThrottle) (t : Int) :
    (s.evictLocked t).keys.Sublist s.keys := by
  simp only [evictLocked]
  split
  · exact List.Sublist.refl _
  · split
    · exact List.filter_sublist
    · exact evictLeast_sublist.trans List.filter_sublist

theorem length_evictLocked (s : LoginThrottle) (t : Int) (h : (s.keys.map Prod.fst).Nodup) :
    (s.evictLocked t).keys.length ≤ s.maxKeys := by
  simp only [evictLocked]
  split
  · assumption
  · split
    · assumption
    · have hnodup : ((s.keys.filter fun k => !s.expired t k.2).map Prod.fst).Nodup :=
        (List.filter_sublist.map Prod.fst).nodup h
      simp only [length_evictLeast hnodup]
      omega

section Run

theorem foldl_remove_sublist (ks : List Octets) (keys : List (Octets × Entry)) :
    (ks.foldl (fun keys k => remove Prod.fst k keys) keys).Sublist keys := by
  induction ks generalizing keys with
  | nil => exact List.Sublist.refl _
  | cons k ks ih => exact (ih _).trans List.filter_sublist

variable {s : LoginThrottle}

theorem maxKeys_step (a : Op × Int) : (s.step a).maxKeys=s.maxKeys := by
  obtain ⟨op,steady⟩ := a
  cases op with
  | recordFailure account clientIp =>
    simp only [step,recordFailure,evictLocked]
    split
    · rfl
    · split <;> rfl
  | _ => rfl

theorem Sound.step (hs : s.Sound) (a : Op × Int) : (s.step a).Sound := by
  obtain ⟨op,steady⟩ := a
  cases op with
  | retryAfter _ _ => exact hs
  | recordFailure account clientIp =>
    have hnodup : ((s.counted (s.now steady) (keysOf account clientIp)).keys.map Prod.fst).Nodup :=
      nodup_foldl_countFailure hs.nodup
    refine ⟨((evictLocked_sublist _ _).map Prod.fst).nodup hnodup,?_,?_⟩
    · rw [maxKeys_step]
      exact length_evictLocked _ _ hnodup
    · simp only [LoginThrottle.step,recordFailure,evictLocked]
      split
      · exact hs.wait_pos
      · split <;> exact hs.wait_pos
  | recordSuccess account clientIp =>
    have hsub := foldl_remove_sublist (keysOf account clientIp) s.keys
    exact ⟨(hsub.map Prod.fst).nodup hs.nodup,hsub.length_le.trans hs.bounded,hs.wait_pos⟩
  | configure threshold lockout =>
    refine ⟨hs.nodup,hs.bounded,?_⟩
    simp only [LoginThrottle.step,configure]
    split <;> omega
  | reset => exact ⟨List.nodup_nil,Nat.zero_le _,hs.wait_pos⟩
  | advanceClockForTest sec => exact ⟨hs.nodup,hs.bounded,hs.wait_pos⟩

theorem sound_init : init.Sound := ⟨List.nodup_nil,Nat.zero_le _,by decide⟩

/-- One operation does no harm exactly when there is room for what it writes. -/
theorem harmless_iff (hs : s.Sound) (a : Op × Int) : s.Harmless a ↔ s.Roomy a := by
  have hbound : (s.step a).keys.length ≤ s.maxKeys := maxKeys_step (s := s) a ▸ (hs.step a).bounded
  rw [Harmless,and_iff_right hbound]
  obtain ⟨op,steady⟩ := a
  cases op with
  | recordFailure account clientIp => exact evictLocked_keeps_iff hs (nodup_keysOf account clientIp)
  | _ => simp [Roomy,touched]

/-- A run of the throttle does no harm exactly when each failure it records finds room. -/
theorem throttle_harmless_iff (ops : List (Op × Int)) :
    Along step Harmless init ops ↔ Along step Roomy init ops := by
  constructor
  · intro h
    refine Along.imp (I := Sound) (fun s a hs _ => hs.step a) (fun s a hs => ?_) h sound_init
    exact (harmless_iff hs a).mp
  · intro h
    refine Along.imp (I := Sound) (fun s a hs _ => hs.step a) (fun s a hs => ?_) h sound_init
    exact (harmless_iff hs a).mpr

end Run

section Flood

/-- The accounts `b`,`bb`,`bbb` and so on. -/
def floodKey (i : Nat) : Octets := octets "u:"++List.replicate (i+1) 0x62

def flood (n : Nat) : List (Op × Int) :=
  (List.range n).map fun i => (Op.recordFailure (List.replicate (i+1) 0x62) [],0)

def flooded (n : Nat) : LoginThrottle :=
  { init with keys := (List.range n).map fun i => (floodKey i,⟨1,0⟩) }

theorem keysOf_replicate (i : Nat) : keysOf (List.replicate (i+1) 0x62) []=[floodKey i] := by
  have hblank : Ascii.isWhite 0x62=false := by decide
  have hleft : trimLeft (List.replicate (i+1) 0x62)=List.replicate (i+1) 0x62 := by
    simp [trimLeft,Ascii.stripLeft,List.replicate_succ,hblank]
  have hright : trimRight (List.replicate (i+1) 0x62)=List.replicate (i+1) 0x62 := by
    rw [trimLeft,Ascii.stripLeft] at hleft
    rw [trimRight,Ascii.stripRight,List.reverse_replicate,hleft,List.reverse_replicate]
  have hkey : acctKey (List.replicate (i+1) 0x62)=floodKey i := by
    rw [acctKey,hleft,hright,List.map_replicate]
    rfl
  have hlong : (floodKey i).length>2 := by
    have : (octets "u:").length=2 := by decide
    rw [floodKey,List.length_append,this,List.length_replicate]
    omega
  have hshort : ¬(addrKey []).length>2 := by decide
  rw [keysOf,hkey,List.filter_cons_of_pos (by simpa using hlong),
    List.filter_cons_of_neg (by simpa using hshort),List.filter_nil]

theorem floodKey_inj {i j : Nat} (h : floodKey i=floodKey j) : i=j := by
  have hlen := congrArg List.length (List.append_cancel_left h)
  simpa using hlen

theorem countFailure_flooded (n : Nat) :
    countFailure 0 (flooded n).keys (floodKey n)=(flooded (n+1)).keys := by
  have hnew : ∀ x∈(flooded n).keys,x.1≠floodKey n := by
    intro x hx heq
    obtain ⟨i,hi,rfl⟩ := List.mem_map.mp hx
    have := floodKey_inj heq
    rw [List.mem_range] at hi
    omega
  have hfind : lookup Prod.fst (floodKey n) (flooded n).keys=none := by
    simpa [lookup] using hnew
  have hany : ((flooded n).keys.any fun x => x.1=floodKey n)=false := by simpa using hnew
  rw [countFailure,hfind,upsert,hany]
  simp [flooded,List.range_succ]

theorem run_flood {n : Nat} (h : n ≤ 20000) : run step init (flood n)=flooded n := by
  have hnow (n : Nat) : (flooded n).now 0=0 := rfl
  induction n with
  | zero => rfl
  | succ n ih =>
    have hlast : flood (n+1)=flood n++[(Op.recordFailure (List.replicate (n+1) 0x62) [],0)] := by
      simp [flood,List.range_succ]
    rw [hlast,run_append,ih (by omega),run_cons,run_nil,step,recordFailure,hnow]
    have hcounted : (flooded n).counted 0 (keysOf (List.replicate (n+1) 0x62) [])=flooded (n+1) := by
      rw [keysOf_replicate]
      exact congrArg (fun keys => { init with keys }) (countFailure_flooded n)
    have hroom : (flooded (n+1)).keys.length ≤ (flooded (n+1)).maxKeys := by
      simpa [flooded,init] using h
    rw [hcounted,evictLocked,if_pos hroom]

/-- In the second of the flood the clock stands still. -/
theorem readings_eq_zero {s : LoginThrottle} (hs : s.clockSkew=0) {ops : List (Op × Int)}
    (h : ∀ a∈ops,∃ account,a=(Op.recordFailure account [],0)) : ∀ t∈readings s ops,t=0 := by
  induction ops generalizing s with
  | nil => exact fun t ht => absurd ht List.not_mem_nil
  | cons a ops ih =>
    obtain ⟨account,rfl⟩ := h a List.mem_cons_self
    intro t ht
    obtain rfl|ht := List.mem_cons.mp ht
    · rw [now,hs]
      rfl
    · refine ih ?_ (fun b hb => h b (List.mem_cons_of_mem _ hb)) t ht
      simp only [step,recordFailure,evictLocked]
      split
      · exact hs
      · split <;> exact hs

theorem flood_failures {n : Nat} {a : Op × Int} (ha : a∈flood n) :
    ∃ account,a=(Op.recordFailure account [],0) := by
  obtain ⟨i,_,rfl⟩ := List.mem_map.mp ha
  exact ⟨_,rfl⟩

theorem flooded_behind {n : Nat} {x : Octets × Entry} (hx : x∈(flooded n).keys) :
    x.2.last=0 ∧ octets "u:a"<x.1 := by
  obtain ⟨i,_,rfl⟩ := List.mem_map.mp hx
  refine ⟨rfl,?_⟩
  have hlt : octets "a"<List.replicate (i+1) 0x62 := List.Lex.rel (by decide)
  exact @List.append_left_lt _ _ (octets "u:") _ _ hlt

/-- The flood leaves no room for the account `a`. -/
theorem not_roomy_flooded : ¬(flooded 20000).Roomy (Op.recordFailure (octets "a") [],0) := by
  have hkeys : keysOf (octets "a") []=[octets "u:a"] := by decide
  have hne (x : Octets × Entry) (hx : x∈(flooded 20000).keys) : x.1≠octets "u:a" :=
    fun heq => List.lt_irrefl _ (heq ▸ (flooded_behind hx).2)
  have hothers : (flooded 20000).others [octets "u:a"]=(flooded 20000).keys :=
    List.filter_eq_self.mpr fun x hx => by simpa using hne x hx
  have hlength : (flooded 20000).keys.length=20000 := by simp [flooded]
  intro hroomy
  simp only [Roomy,touched,hkeys,List.mem_singleton,hothers] at hroomy
  obtain hroom|hfew := hroomy
  · rw [List.filter_eq_self.mpr,hlength] at hroom
    · exact absurd hroom (by decide)
    · intro x hx
      have hlive := (flooded 20000).not_expired (by decide) (flooded_behind hx).1.ge
      change (!(flooded 20000).expired 0 x.2)=true
      rw [hlive]
      rfl
  · have hmany := hfew _ rfl
    rw [rivals,hothers,List.filter_eq_self.mpr,hlength] at hmany
    · exact absurd hmany (by decide)
    · intro x hx
      exact decide_eq_true (Or.inr (flooded_behind hx))

theorem readings_flood (n : Nat) :
    (readings init (flood n++[(Op.recordFailure (octets "a") [],0)])).Pairwise (· ≤ ·) := by
  have hzero : ∀ t∈readings init (flood n++[(Op.recordFailure (octets "a") [],0)]),t=0 := by
    refine readings_eq_zero rfl fun a ha => ?_
    obtain ha|ha := List.mem_append.mp ha
    · exact flood_failures ha
    · exact ⟨_,List.mem_singleton.mp ha⟩
  exact List.pairwise_of_forall_mem_list fun t ht u hu => by rw [hzero t ht,hzero u hu]

theorem not_harmless_flood {n : Nat} (hn : n=20000) :
    ¬Along step Harmless init (flood n++[(Op.recordFailure (octets "a") [],0)]) := by
  intro h
  obtain ⟨_,hlast⟩ := along_append.mp h
  have hsound : (run step init (flood n)).Sound :=
    run_invariant (I := Sound) (fun s a hs => hs.step a) sound_init _
  have hroomy := (harmless_iff hsound _).mp hlast.1
  rw [run_flood hn.le,hn] at hroomy
  exact not_roomy_flooded hroomy

/-- A flood within one second takes the key of the failure that was just recorded. -/
theorem throttle_drops_newest : ¬∀ ops : List (Op × Int),(readings init ops).Pairwise (· ≤ ·) →
    Along step Harmless init ops := by
  intro h
  obtain ⟨n,hn⟩ : ∃ n : Nat,n=20000 := ⟨_,rfl⟩
  exact not_harmless_flood hn (h _ (readings_flood n))

end Flood

end LoginThrottle

end FastPki.Auth
