import FastPki.Auth.Throttle
import FastPki.Framework.History
import FastPki.Framework.Rows

namespace FastPki.Auth.LoginThrottle

open X509

/-- What a plain record of the operations holds of a key: the skew of the clock, and the failures
since the last success, of which none is forgotten. -/
structure Tally where
  skew : Int
  entry : Option Entry

def Tally.init : Tally := ⟨0,none⟩

def Tally.failed (y : Tally) (steady : Int) : Tally :=
  ⟨y.skew,some ⟨(y.entry.map Entry.failures).getD 0+1,steady+y.skew⟩⟩

def Tally.step (k : Octets) (y : Tally) : Op × Int → Tally
  | (.recordFailure account clientIp,steady) =>
    if (keysOf account clientIp).contains k then y.failed steady else y
  | (.recordSuccess account clientIp,_) =>
    if (keysOf account clientIp).contains k then { y with entry := none } else y
  | (.reset,_) => Tally.init
  | (.advanceClockForTest sec,_) => { y with skew := y.skew+sec }
  | _ => y

def tally (k : Octets) (ops : List (Op × Int)) : Tally := run (Tally.step k) Tally.init ops

/-- The wait by the plain record. -/
def plainWait (s : LoginThrottle) (steady : Int) (account clientIp : Octets) (ops : List (Op × Int)) :
    Int :=
  (keysOf account clientIp).foldl (fun worst k =>
    (tally k ops).entry.elim worst fun e => max worst (s.waitFor e (s.now steady))) 0

/-- The operations write under these keys only, and there is room for all of them. -/
def Within (ks : List Octets) (ops : List (Op × Int)) : Prop :=
  ks.length ≤ init.maxKeys ∧ ∀ a∈ops,∀ k∈touched a.1,k∈ks

/-- The counter of the table stands still at 1000. -/
def Entry.saturated (e : Entry) : Entry := ⟨min e.failures 1000,e.last⟩

section Row

/-- The entry that a failure writes over the one it finds. -/
def bumped (t : Int) (found : Option (Octets × Entry)) : Entry :=
  let failures := (found.map (·.2.failures)).getD 0
  ⟨if failures < 1000 then failures+1 else failures,t⟩

variable {t : Int} {k k' : Octets}

theorem lookup_countFailure (keys : List (Octets × Entry)) :
    lookup Prod.fst k (countFailure t keys k')=
      if k=k' then some (k,bumped t (lookup Prod.fst k keys)) else lookup Prod.fst k keys := by
  split_ifs with hk
  · obtain rfl := hk
    exact lookup_upsert_self (k,_) keys
  · exact lookup_upsert_of_ne keys fun h => hk h.symm

theorem lookup_foldl_countFailure {ks : List Octets} (hks : ks.Nodup) (keys : List (Octets × Entry)) :
    lookup Prod.fst k (ks.foldl (countFailure t) keys)=
      if k∈ks then some (k,bumped t (lookup Prod.fst k keys)) else lookup Prod.fst k keys := by
  induction ks generalizing keys with
  | nil => rfl
  | cons k' ks ih =>
    obtain ⟨hnew,hks⟩ := List.nodup_cons.mp hks
    rw [List.foldl_cons,ih hks,lookup_countFailure]
    by_cases hk : k=k'
    · obtain rfl := hk
      rw [if_neg hnew,if_pos rfl,if_pos List.mem_cons_self]
    · rw [if_neg hk]
      simp only [List.mem_cons,hk,false_or]

theorem lookup_foldl_remove (ks : List Octets) (keys : List (Octets × Entry)) :
    lookup Prod.fst k (ks.foldl (fun keys k => remove Prod.fst k keys) keys)=
      if k∈ks then none else lookup Prod.fst k keys := by
  induction ks generalizing keys with
  | nil => rfl
  | cons k' ks ih =>
    rw [List.foldl_cons,ih,lookup_remove]
    by_cases hk : k=k'
    · simp [hk]
    · rw [if_neg hk]
      simp only [List.mem_cons,hk,false_or]

end Row

section History

/-- The table against the plain record. -/
structure Agrees (ks : List Octets) (ops : List (Op × Int)) (s : LoginThrottle) : Prop where
  skew : ∀ k,s.clockSkew=(tally k ops).skew
  rows : ∀ k,lookup Prod.fst k s.keys=(tally k ops).entry.map fun e => (k,e.saturated)
  among : ∀ x∈s.keys,x.1∈ks
  room : s.maxKeys=init.maxKeys

variable {ks : List Octets} {ops : List (Op × Int)} {s : LoginThrottle}

theorem tally_append (k : Octets) (a : Op × Int) : tally k (ops++[a])=(tally k ops).step k a := by
  rw [tally,run_append]
  rfl

/-- Where there is room for all keys, none is dropped. -/
theorem recordFailure_keys (hs : s.Sound) (h : Agrees ks ops s) (hroom : ks.length ≤ init.maxKeys)
    {account clientIp : Octets} (hks : ∀ k∈keysOf account clientIp,k∈ks) (steady : Int) :
    s.recordFailure steady account clientIp=s.counted (s.now steady) (keysOf account clientIp) := by
  have hnodup : ((s.counted (s.now steady) (keysOf account clientIp)).keys.map Prod.fst).Nodup :=
    nodup_foldl_countFailure hs.nodup
  have hsub : (s.counted (s.now steady) (keysOf account clientIp)).keys.map Prod.fst ⊆ ks := by
    intro k hk
    obtain ⟨x,hx,rfl⟩ := List.mem_map.mp hk
    obtain ⟨hin,_⟩|⟨hold,_⟩ := mem_foldl_countFailure hx
    · exact hks _ hin
    · exact h.among x hold
  have hlen := (List.subperm_of_subset hnodup hsub).length_le
  rw [List.length_map] at hlen
  have hfit : (s.counted (s.now steady) (keysOf account clientIp)).keys.length ≤
      (s.counted (s.now steady) (keysOf account clientIp)).maxKeys := by
    change _ ≤ s.maxKeys
    rw [h.room]
    exact hlen.trans hroom
  rw [recordFailure,evictLocked,if_pos hfit]

theorem Agrees.failure (hs : s.Sound) (h : Agrees ks ops s) (hroom : ks.length ≤ init.maxKeys)
    {account clientIp : Octets} (hks : ∀ k∈keysOf account clientIp,k∈ks) (steady : Int) :
    Agrees ks (ops++[(.recordFailure account clientIp,steady)])
      (s.recordFailure steady account clientIp) := by
  rw [recordFailure_keys hs h hroom hks]
  refine ⟨?_,?_,?_,h.room⟩
  · intro k
    rw [tally_append,Tally.step]
    split_ifs
    · exact h.skew k
    · exact h.skew k
  · intro k
    rw [tally_append,Tally.step]
    simp only [List.contains_iff_mem]
    change lookup Prod.fst k ((keysOf account clientIp).foldl (countFailure (s.now steady)) s.keys)=_
    rw [lookup_foldl_countFailure (nodup_keysOf account clientIp),h.rows k]
    split_ifs with hk
    · rw [Tally.failed,now,h.skew k]
      cases (tally k ops).entry with
      | none => rfl
      | some e =>
        have hcount : (if min e.failures 1000 < 1000 then min e.failures 1000+1
            else min e.failures 1000)=min (e.failures+1) 1000 := by
          split_ifs <;> omega
        exact congrArg (fun n => some (k,(⟨n,steady+(tally k ops).skew⟩ : Entry))) hcount
    · rfl
  · intro x hx
    obtain ⟨hin,_⟩|⟨hold,_⟩ := mem_foldl_countFailure hx
    · exact hks _ hin
    · exact h.among x hold

theorem Agrees.success (h : Agrees ks ops s) (account clientIp : Octets) (steady : Int) :
    Agrees ks (ops++[(.recordSuccess account clientIp,steady)])
      (s.recordSuccess account clientIp) := by
  refine ⟨?_,?_,?_,h.room⟩
  · intro k
    rw [tally_append,Tally.step]
    split_ifs
    · exact h.skew k
    · exact h.skew k
  · intro k
    rw [tally_append,Tally.step]
    simp only [List.contains_iff_mem]
    change lookup Prod.fst k ((keysOf account clientIp).foldl _ s.keys)=_
    rw [lookup_foldl_remove,h.rows k]
    split_ifs
    · rfl
    · rfl
  · exact fun x hx => h.among x ((foldl_remove_sublist _ _).subset hx)

theorem agrees_run (ops : List (Op × Int)) : Within ks ops →
    Agrees ks ops (run step init ops) := by
  refine run_history (I := fun ops s => Within ks ops → Agrees ks ops s) ?_ ?_ ops
  · intro _
    exact ⟨fun _ => rfl,fun _ => rfl,fun x hx => (List.not_mem_nil hx).elim,rfl⟩
  · intro ops a ih hin
    have hbefore := ih ⟨hin.1,fun b hb => hin.2 b (List.mem_append_left _ hb)⟩
    have hs : (run step init ops).Sound := run_invariant (fun _ a hs => hs.step a) sound_init ops
    obtain ⟨op,steady⟩ := a
    cases op with
    | retryAfter account clientIp =>
      refine ⟨fun k => ?_,fun k => ?_,hbefore.among,hbefore.room⟩
      · rw [tally_append]
        exact hbefore.skew k
      · rw [tally_append]
        exact hbefore.rows k
    | recordFailure account clientIp =>
      exact hbefore.failure hs hin.1 (fun k hk => hin.2 (.recordFailure account clientIp,steady)
        (List.mem_append_right _ List.mem_cons_self) k hk) steady
    | recordSuccess account clientIp => exact hbefore.success account clientIp steady
    | configure threshold lockout =>
      refine ⟨fun k => ?_,fun k => ?_,hbefore.among,hbefore.room⟩
      · rw [tally_append]
        exact hbefore.skew k
      · rw [tally_append]
        exact hbefore.rows k
    | reset =>
      refine ⟨fun k => ?_,fun k => ?_,fun x hx => (List.not_mem_nil hx).elim,hbefore.room⟩
      · rw [tally_append]
        rfl
      · rw [tally_append]
        rfl
    | advanceClockForTest sec =>
      refine ⟨fun k => ?_,fun k => ?_,hbefore.among,hbefore.room⟩
      · rw [tally_append]
        exact congrArg (· +sec) (hbefore.skew k)
      · rw [tally_append]
        exact hbefore.rows k

/-- Where the counter of the table stands still the window has been at its bound for long. -/
theorem waitFor_saturated {s : LoginThrottle} (h : s.threshold ≤ 980) (e : Entry) (t : Int) :
    s.waitFor e.saturated t=s.waitFor e t := by
  by_cases hsmall : e.failures ≤ 1000
  · have hsame : e.saturated=e := by
      rw [Entry.saturated,min_eq_left hsmall]
    rw [hsame]
  · have hfull : e.saturated=⟨1000,e.last⟩ := by
      rw [Entry.saturated,min_eq_right (by omega)]
    have hover : ¬(e.failures : Int) ≤ s.threshold := by omega
    have hbeyond : (e.failures : Int)-s.threshold ≥ 20 := by omega
    have hover' : ¬((1000 : Nat) : Int) ≤ s.threshold := by omega
    have hbeyond' : ((1000 : Nat) : Int)-s.threshold ≥ 20 := by omega
    rw [hfull]
    simp only [waitFor,if_neg hover,if_neg hover',if_pos hbeyond,if_pos hbeyond']

theorem Agrees.retryAfter (h : Agrees ks ops s) (hthreshold : s.threshold ≤ 980) (steady : Int)
    (account clientIp : Octets) :
    s.retryAfter steady account clientIp=s.plainWait steady account clientIp ops := by
  rw [LoginThrottle.retryAfter,plainWait]
  congr 1
  funext worst k
  rw [h.rows k]
  cases (tally k ops).entry with
  | none => rfl
  | some e =>
    simp only [Option.map_some,Option.elim_some]
    rw [waitFor_saturated hthreshold]

/-- The throttle keeps a table that is swept, with counters that stand still. As long as the operations
use no more keys than it has room for, each wait it gives is the one that a plain record of all
failures since the last success comes to. -/
theorem throttle_wait_of_history (ks : List Octets) {ops : List (Op × Int)} (hin : Within ks ops)
    (hthreshold : (run step init ops).threshold ≤ 980) (steady : Int) (account clientIp : Octets) :
    (run step init ops).retryAfter steady account clientIp=
      (run step init ops).plainWait steady account clientIp ops :=
  (agrees_run ops hin).retryAfter hthreshold steady account clientIp

end History

section Seventh

/-- Seven failures of one account in the same second, from addresses of their own. -/
def guesses : List (Op × Int) :=
  (List.range 7).map fun i => (.recordFailure (octets "alice") [UInt8.ofNat i],100)

/-- The keys that they write. -/
def guessed : List Octets :=
  acctKey (octets "alice")::(List.range 7).map fun i => addrKey [UInt8.ofNat i]

theorem throttle_wait_of_history_guesses :
    (run step init guesses).retryAfter 101 (octets "Alice ") []=1 ∧
    (run step init guesses).retryAfter 101 (octets "Alice ") []=
      (run step init guesses).plainWait 101 (octets "Alice ") [] guesses :=
  ⟨by decide +kernel,throttle_wait_of_history guessed
    ⟨by decide,by decide +kernel⟩ (by decide +kernel) 101 (octets "Alice ") []⟩

end Seventh

end FastPki.Auth.LoginThrottle
