import FastPki.Crl.Publish

namespace FastPki.Crl
open Certs

/-- A full CRL, with the table it read. -/
structure FullRead where
  db : Inventory
  crl : CrlDoc

/-- The table, the clock and the full CRLs of one CA so far, the last one first. -/
structure Issued extends State where
  fulls : List FullRead

inductive IssuedAct where
  | other (a : Act)
  /-- A full CRL is generated, by whichever path. -/
  | full

/-- One step for the CA `x`; `days` is the configured time to the next update. -/
def issuedStep (days : Int) (x : String) (s : Issued) : IssuedAct → Issued
  | .other a => { s with toState := step s.toState a }
  | .full => { s with fulls := ⟨s.db,generateCrl days s.db x s.clock 0⟩::s.fulls }

/-- Nothing has been generated. -/
def beforeIssued (db : Inventory) (clock : Int) : Issued := ⟨⟨db,clock⟩,[]⟩

/-- Of two CRLs that do not list the same, the later one has the larger number. -/
def NumbersIdentify (s : Issued) : Prop :=
  s.fulls.Pairwise fun later earlier =>
    (¬∀ e,e∈later.crl.entries ↔ e∈earlier.crl.entries) → earlier.crl.number<later.crl.number

/-- The certificates of the CA that are revoked. -/
def revokedRows (db : Inventory) (x : String) : List Row :=
  db.rows.filter fun c => revoked c.toCertRow && covered db x c

/-- No full CRL is generated in a second in which one was generated before some revocation or release
of the CA took effect: what is revoked is what it was then. -/
def NothingRevokedSince (x : String) (s : Issued) : IssuedAct → Prop
  | .full => ∀ d∈s.fulls,d.crl.number=s.clock → revokedRows s.db x=revokedRows d.db x
  | .other _ => True

instance (x : String) (s : Issued) (a : IssuedAct) : Decidable (NothingRevokedSince x s a) :=
  match a with
  | .full => inferInstanceAs (Decidable (∀ d∈s.fulls,_))
  | .other _ => inferInstanceAs (Decidable True)

/-- The entries of a full CRL are made of the revoked rows. -/
theorem crlEntries_congr {db db' : Inventory} {x : String}
    (h : revokedRows db x=revokedRows db' x) : crlEntries db x 0=crlEntries db' x 0 := by
  have hrows : getRevokedCerts db x=getRevokedCerts db' x := by
    simp only [getRevokedCerts,crlRows]
    exact congrArg _ h
  simp only [crlEntries,hrows]
  rfl

/-- The numbers do not run ahead of the clock, do not fall, and repeat only over the same revoked
rows. -/
structure NumberInv (x : String) (s : Issued) : Prop where
  past : ∀ d∈s.fulls,d.crl.number ≤ s.clock
  made : ∀ d∈s.fulls,d.crl.entries=crlEntries d.db x 0
  order : s.fulls.Pairwise fun later earlier => earlier.crl.number ≤ later.crl.number ∧
    (earlier.crl.number=later.crl.number → revokedRows later.db x=revokedRows earlier.db x)

section Step

variable {x : String} {s : Issued}

theorem clock_le_step (s : State) (a : Act) : s.clock ≤ (step s a).clock := by
  cases a with
  | tick seconds =>
    simp only [step]
    omega
  | _ => exact le_rfl

theorem NumberInv.step (h : NumberInv x s) {a : IssuedAct} (ha : NothingRevokedSince x s a)
    (days : Int) : NumberInv x (issuedStep days x s a) := by
  cases a with
  | other a =>
    exact ⟨fun d hd => (h.past d hd).trans (clock_le_step s.toState a),h.made,h.order⟩
  | full =>
    refine ⟨fun d hd => ?_,fun d hd => ?_,List.pairwise_cons.mpr ⟨fun d hd => ?_,h.order⟩⟩
    · rcases List.mem_cons.mp hd with rfl|hd
      · exact le_rfl
      · exact h.past d hd
    · rcases List.mem_cons.mp hd with rfl|hd
      · rfl
      · exact h.made d hd
    · exact ⟨h.past d hd,ha d hd⟩

theorem NumberInv.identify (h : NumberInv x s) : NumbersIdentify s := by
  have hmade := h.made
  refine (List.pairwise_iff_forall_sublist.mpr ?_)
  intro later earlier hsub hdiffer
  have hmem := hsub.subset
  obtain ⟨hle,hsame⟩ := List.pairwise_iff_forall_sublist.mp h.order hsub
  refine lt_of_le_of_ne hle fun heq => hdiffer ?_
  have hentries : later.crl.entries=earlier.crl.entries := by
    rw [hmade later (hmem (by simp)),hmade earlier (hmem (by simp)),crlEntries_congr (hsame heq)]
  intro e
  rw [hentries]

end Step

/-- In a run in which no full CRL follows, within its second, a full CRL and a change of what is
revoked, the numbers identify the content in every state. -/
theorem crl_numbers_identify (days : Int) (x : String) (db : Inventory) (clock : Int)
    (as : List IssuedAct)
    (has : Along (issuedStep days x) (NothingRevokedSince x) (beforeIssued db clock) as) (k : Nat) :
    NumbersIdentify (run (issuedStep days x) (beforeIssued db clock) (as.take k)) := by
  have hinit : NumberInv x (beforeIssued db clock) :=
    ⟨fun d hd => (by cases hd),fun d hd => (by cases hd),List.Pairwise.nil⟩
  exact ((has.take k).invariant (fun _ _ h ha => h.step ha days) hinit).identify

/-- A revocation between two full CRLs, a second later. -/
def secondLater : List IssuedAct :=
  [.full,.other (.tick 1),.other (.revokeCert (serialHex 31) 1),.full]

theorem crl_numbers_identify_later :
    Along (issuedStep 7 "sub") (NothingRevokedSince "sub") (beforeIssued oneLeaf 1000) secondLater ∧
      NumbersIdentify (run (issuedStep 7 "sub") (beforeIssued oneLeaf 1000)
        (secondLater.take 4)) := by
  have h : Along (issuedStep 7 "sub") (NothingRevokedSince "sub") (beforeIssued oneLeaf 1000)
      secondLater := by decide
  exact ⟨h,crl_numbers_identify 7 "sub" oneLeaf 1000 secondLater h 4⟩

/-- A revocation between two full CRLs in one second. -/
def sameSecond : List IssuedAct := [.full,.other (.revokeCert (serialHex 31) 1),.full]

theorem same_second_same_number :
    ¬NumbersIdentify (run (issuedStep 7 "sub") (beforeIssued oneLeaf 1000) sameSecond) := by
  intro h
  have hlt := (List.pairwise_cons.mp h).1 _ List.mem_cons_self fun hsame => by
    have hmem := (hsame ⟨31,1,1000⟩).mp (by decide)
    exact absurd hmem (by decide)
  exact absurd hlt (by decide)

end FastPki.Crl
