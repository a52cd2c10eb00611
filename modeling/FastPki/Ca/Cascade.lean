import FastPki.Crl.Coverage
import FastPki.Rbac.RevokeRoute

namespace FastPki.Ca
open X509 Certs Crl
open Cmp (canonicalSerial)
open Rbac hiding CertRow

/-- What the two routes do to a certificate. -/
inductive HoldOp where
  | revoke (reason : Int)
  | release

structure Call where
  time : Int
  fate : Fate

/-- A POST to `/api/certs/{serial}/revoke` or `/release`. `reason` is 0 where the request has none
and -1 where it is no number; `calls` are the database calls in order, `now` is read once for
all releases. -/
structure PostHold where
  caller : Caller
  path : String
  op : HoldOp
  now : Int
  calls : Nat → Call

inductive Reply where
  | disabled
  | noSuchSerial
  | needsRevoke
  | badReason (why : String)
  | alreadyRevoked (onHold : Bool)
  | notOnHold
  | failed
  | done (also : List String)
  deriving DecidableEq

def Reply.code : Reply → Nat
  | .disabled | .needsRevoke => 403
  | .noSuchSerial => 404
  | .badReason _ => 400
  | .notOnHold => 409
  | .failed => 500
  | .alreadyRevoked _ | .done _ => 200

def HoldOp.cond : HoldOp → CertRow → Bool
  | .revoke reason => revocable reason
  | .release => onHold

def HoldOp.apply : HoldOp → Inventory → String → Int → Inventory
  | .revoke reason,db,serial,time => (db.revokeCert serial reason time).1
  | .release,db,serial,time => (db.releaseHold serial time).1

/-- The time of a call: a revocation reads the clock each time, a release once. -/
def PostHold.time (req : PostHold) (i : Nat) : Int :=
  match req.op with
  | .revoke _ => (req.calls i).time
  | .release => req.now

/-- The answer to a request that has nothing to do on this row. -/
def HoldOp.refusal (op : HoldOp) (row : CertRow) : Option Reply :=
  match op with
  | .revoke reason =>
    if revocationReasonRefusal reason ≠ "" then some (.badReason (revocationReasonRefusal reason))
    else if row.status = some (-1) ∧ (¬onHold row ∨ reason = 6) then some (.alreadyRevoked (onHold row))
    else none
  | .release => if onHold row then none else some .notOnHold

/-- The columns of the row that authorize the caller. -/
def authRow (row : Row) : Rbac.CertRow :=
  ⟨row.serial,row.owner,row.caInstanceId.getD "",row.isCa,row.id.getD ""⟩

/-- `list_ca_generations`: valid rows and rows on hold that carry the id, or no id and an issuer
hash among the subjects of the CA. -/
def listCaGenerations (db : Inventory) (x : String) : List Row :=
  db.rows.filter fun r => (r.status = some 0 ∨ onHold r.toCertRow) ∧ r.isCa ∧
    (r.id = some x ∨ (r.id = none ∧ r.iHash.any fun h => (caSubjects db x).any (· = h)))

/-- The loop over the other generations, from the call `i` on; none where a call throws. -/
def cascade (req : PostHold) (i : Nat) (db : Inventory) : List Row → Inventory × Option Nat
  | [] => (db,some i)
  | g::gs =>
    let after := req.op.apply db g.serial (req.time i)
    match (req.calls i).fate with
    | .ok => cascade req (i+1) after gs
    | .throws applied => (if applied then after else db,none)

/-- The other generations that the caller may change. -/
def cascadeRows (con : Console) (req : PostHold) (db : Inventory) (row : Row) : List Row :=
  if row.isCa ∧ row.id.getD "" ≠ "" then
    (listCaGenerations db (row.id.getD "")).filter fun g =>
      g.serial ≠ row.serial ∧ mayRevoke con req.caller (authRow g)
  else []

/-- The serials that the loop changed. -/
def alsoChanged (op : HoldOp) (gs : List Row) : List String :=
  (gs.filter fun g => op.cond g.toCertRow).map Row.serial

/-- The writes of the handler, once it has admitted the request for this row. -/
def changeAll (con : Console) (req : PostHold) (db : Inventory) (row : Row) : Inventory × Reply :=
  let after := req.op.apply db row.serial (req.time 1)
  match (req.calls 1).fate with
  | .throws applied => (if applied then after else db,.failed)
  | .ok =>
    if row.isCa ∧ row.id.getD "" ≠ "" ∧ (req.calls 2).fate ≠ .ok then (after,.failed)
    else
      let gs := cascadeRows con req after row
      match cascade req 3 after gs,req.op with
      | (db',none),_ => (db',.failed)
      | (db',some _),.revoke _ => (db',.done (alsoChanged req.op gs))
      -- the release route reads the row again for its answer
      | (db',some i),.release =>
        (db',if (req.calls i).fate = .ok then .done (alsoChanged req.op gs) else .failed)

/-- The two routes, past the gate. -/
def postHold (con : Console) (db : Inventory) (req : PostHold) : Inventory × Reply :=
  if !con.webAllowRevoke then (db,.disabled)
  else if (req.calls 0).fate ≠ .ok then (db,.failed)
  else match db.getCert (canonicalSerial req.path) with
    | none => (db,.noSuchSerial)
    | some row =>
      if mayRevoke con req.caller (authRow row) then
        match req.op.refusal row.toCertRow with
        | some reply => (db,reply)
        | none => changeAll con req db row
      else (db,if inScope (scopeOf con req.caller) (row.caInstanceId.getD "") ∧
        holdsEstateCap con req.caller "cert:read" then .needsRevoke else .noSuchSerial)

/-- What a call writes to the row. -/
def HoldOp.set (op : HoldOp) (time : Int) (row : CertRow) : CertRow :=
  match op with
  | .revoke reason => { row with status := some (-1)
                                 revocationReason := some reason
                                 revocationDate := some time }
  | .release =>
    { row with status := some (if row.notAfter.getD 0>0 ∧ row.notAfter.getD 0≤time then 1 else 0)
               revocationReason := some 8
               revocationDate := some time }

section Apply

variable (op : HoldOp) (db : Inventory) (serial : String) (time : Int)

theorem HoldOp.apply_eq :
    op.apply db serial time=(db.modifySerial serial op.cond (op.set time)).1 := by
  cases op <;> rfl

theorem find_apply (k : String) : (op.apply db serial time).find k=
    (db.find k).map fun r =>
      if k=serial ∧ op.cond r.toCertRow=true then { r with toCertRow := op.set time r.toCertRow }
      else r := by
  rw [HoldOp.apply_eq,Inventory.modifySerial,Inventory.find_modify]
  cases hk : db.find k with
  | none => rfl
  | some r =>
    have hkey := (Keyed.find_eq_some.mp hk).2
    simp [hkey]

theorem find_apply_of_ne {k : String} (hk : k≠serial) :
    (op.apply db serial time).find k=db.find k := by
  rw [find_apply]
  simp [hk]

theorem HoldOp.set_ne {row : CertRow} (h : op.cond row=true) : op.set time row≠row := by
  intro hsame
  cases op with
  | revoke reason =>
    have hstatus := congrArg CertRow.status hsame
    have hreason := congrArg CertRow.revocationReason hsame
    simp only [set,cond,revocable,decide_eq_true_eq] at hstatus hreason h
    rw [← hstatus,← hreason] at h
    simp at h
  | release =>
    have hreason := congrArg CertRow.revocationReason hsame
    simp only [set,cond,onHold,decide_eq_true_eq] at hreason h
    rw [← hreason] at h
    simp at h

theorem caSubjects_apply (x : String) : caSubjects (op.apply db serial time) x=caSubjects db x := by
  rw [HoldOp.apply_eq,Inventory.modifySerial,caSubjects_modify]

end Apply

/-- The loop leaves every other row alone, wherever it stops. -/
theorem find_cascade_of_not_mem (req : PostHold) (i : Nat) (db : Inventory) (gs : List Row)
    {k : String} (hk : ∀ g∈gs,g.serial≠k) : (cascade req i db gs).1.find k=db.find k := by
  induction gs generalizing i db with
  | nil => rfl
  | cons g gs ih =>
    have hne : k≠g.serial := fun h => hk g List.mem_cons_self h.symm
    have hrest := ih (i+1) (req.op.apply db g.serial (req.time i))
      fun g' hg' => hk g' (List.mem_cons_of_mem _ hg')
    simp only [cascade]
    split
    · rw [hrest,find_apply_of_ne req.op db g.serial (req.time i) hne]
    · split_ifs
      · exact find_apply_of_ne req.op db g.serial (req.time i) hne
      · rfl

/-- Where no call throws, the loop changes each of its rows once. -/
theorem cascade_ok (req : PostHold) (i : Nat) (hok : ∀ j≥i,(req.calls j).fate=.ok) (db : Inventory)
    (gs : List Row) (hnodup : (gs.map Row.serial).Nodup) :
    (cascade req i db gs).2=some (i+gs.length) ∧
      ∀ g∈gs,∃ time,(cascade req i db gs).1.find g.serial=(req.op.apply db g.serial time).find g.serial := by
  induction gs generalizing i db with
  | nil => simp [cascade]
  | cons g gs ih =>
    have hfree : ∀ g'∈gs,g'.serial≠g.serial := key_ne_of_nodup hnodup
    obtain ⟨hdone,hrows⟩ := ih (i+1) (fun j hj => hok j (by omega))
      (req.op.apply db g.serial (req.time i)) hnodup.of_cons
    simp only [cascade,hok i le_rfl]
    refine ⟨?_,?_⟩
    · rw [hdone]
      simp only [List.length_cons,Option.some.injEq]
      omega
    · intro g' hg'
      obtain rfl|hg' := List.mem_cons.mp hg'
      · exact ⟨req.time i,find_cascade_of_not_mem req (i+1) _ gs hfree⟩
      · obtain ⟨time,ht⟩ := hrows g' hg'
        refine ⟨time,ht.trans ?_⟩
        rw [find_apply,find_apply_of_ne req.op db g.serial (req.time i) (hfree g' hg')]
        exact (find_apply req.op db g'.serial time g'.serial).symm

/-- Wherever the loop stops, a row is as it was or as one call left it. -/
theorem find_cascade (req : PostHold) (i : Nat) (db : Inventory) (gs : List Row)
    (hnodup : (gs.map Row.serial).Nodup) (k : String) :
    (cascade req i db gs).1.find k=db.find k ∨
      ∃ time,(cascade req i db gs).1.find k=(req.op.apply db k time).find k := by
  induction gs generalizing i db with
  | nil => exact Or.inl rfl
  | cons g gs ih =>
    have hfree : ∀ g'∈gs,g'.serial≠g.serial := key_ne_of_nodup hnodup
    simp only [cascade]
    split
    · by_cases hk : k=g.serial
      · subst hk
        exact Or.inr ⟨req.time i,find_cascade_of_not_mem req (i+1) _ gs hfree⟩
      · have hkeep := find_apply_of_ne req.op db g.serial (req.time i) hk
        obtain hsame|⟨time,ht⟩ := ih (i+1) (req.op.apply db g.serial (req.time i)) hnodup.of_cons
        · exact Or.inl (hsame.trans hkeep)
        · refine Or.inr ⟨time,ht.trans ?_⟩
          rw [find_apply,hkeep]
          exact (find_apply req.op db k time k).symm
    · split_ifs
      · by_cases hk : k=g.serial
        · subst hk
          exact Or.inr ⟨req.time i,rfl⟩
        · exact Or.inl (find_apply_of_ne req.op db g.serial (req.time i) hk)
      · exact Or.inl rfl

section Rows

variable {con : Console} {req : PostHold} {db : Inventory} {row : Row}

theorem mem_apply_of_ne {op : HoldOp} {serial : String} {time : Int} {g : Row}
    (hg : g.serial≠serial) : g∈(op.apply db serial time).rows ↔ g∈db.rows := by
  constructor
  · intro hmem
    have hfind := Keyed.find_of_mem hmem
    rw [find_apply_of_ne op db serial time hg] at hfind
    exact (Keyed.find_eq_some.mp hfind).1
  · intro hmem
    have hfind := Keyed.find_of_mem hmem
    rw [← find_apply_of_ne op db serial time hg] at hfind
    exact (Keyed.find_eq_some.mp hfind).1

/-- The loop runs over the rows as they were before the request. -/
theorem mem_cascadeRows {x : String} (hx : x≠"") (hid : row.id=some x) {time : Int} {g : Row} :
    g∈cascadeRows con req (req.op.apply db row.serial time) row ↔
      row.isCa=true ∧ g∈db.rows ∧ g.serial≠row.serial ∧
        (g.status=some 0 ∨ onHold g.toCertRow=true) ∧ g.isCa=true ∧
        (g.id=some x ∨ (g.id=none ∧ ∃ h∈caSubjects db x,g.iHash=some h)) ∧
        mayRevoke con req.caller (authRow g)=true := by
  by_cases hca : row.isCa=true
  · simp only [cascadeRows,hid,Option.getD_some,hca,hx,ne_eq,not_false_eq_true,and_self,if_true,
      listCaGenerations,caSubjects_apply,List.mem_filter,decide_eq_true_eq,true_and]
    constructor
    · intro h
      obtain ⟨⟨hmem,halive,hgca,hwho⟩,hne,hmay⟩ := h
      refine ⟨(mem_apply_of_ne hne).mp hmem,hne,halive,hgca,?_,hmay⟩
      obtain hgid|⟨hgid,hhash⟩ := hwho
      · exact Or.inl hgid
      · obtain ⟨h,hh,hany⟩ := (Option.any_eq_true _ _).mp hhash
        exact Or.inr ⟨hgid,h,by simpa using hany,hh⟩
    · intro h
      obtain ⟨hmem,hne,halive,hgca,hwho,hmay⟩ := h
      refine ⟨⟨(mem_apply_of_ne hne).mpr hmem,halive,hgca,?_⟩,hne,hmay⟩
      obtain hgid|⟨hgid,h,hh,hi⟩ := hwho
      · exact Or.inl hgid
      · exact Or.inr ⟨hgid,by simp [hi,hh]⟩
  · simp [cascadeRows,hca]

variable (con req db row) in
theorem cascadeRows_nodup : ((cascadeRows con req db row).map Row.serial).Nodup := by
  simp only [cascadeRows]
  split_ifs
  · exact db.distinct.sublist ((List.filter_sublist.trans List.filter_sublist).map _)
  · simp

variable (con req db row) in
theorem changeAll_db : (changeAll con req db row).1=db ∨
    (changeAll con req db row).1=req.op.apply db row.serial (req.time 1) ∨
    (changeAll con req db row).1=(cascade req 3 (req.op.apply db row.serial (req.time 1))
      (cascadeRows con req (req.op.apply db row.serial (req.time 1)) row)).1 := by
  simp only [changeAll]
  split
  · split_ifs
    · exact Or.inr (Or.inl rfl)
    · exact Or.inl rfl
  · split_ifs
    · exact Or.inr (Or.inl rfl)
    · right
      right
      split <;> simp_all

theorem not_mem_cascadeRows (time : Int) :
    ∀ g∈cascadeRows con req (req.op.apply db row.serial time) row,g.serial≠row.serial := by
  intro g hg
  simp only [cascadeRows] at hg
  split_ifs at hg
  · have hne := (List.mem_filter.mp hg).2
    simp only [decide_eq_true_eq] at hne
    exact hne.1
  · cases hg

variable (con req db row) in
/-- Whatever fails, a row is as it was, or one call changed it. -/
theorem find_changeAll (k : String) : (changeAll con req db row).1.find k=db.find k ∨
    ((k=row.serial ∨ ∃ g∈cascadeRows con req (req.op.apply db row.serial (req.time 1)) row,g.serial=k) ∧
      ∃ time,(changeAll con req db row).1.find k=(req.op.apply db k time).find k) := by
  have hkeep : k≠row.serial → (req.op.apply db row.serial (req.time 1)).find k=db.find k :=
    fun hk => find_apply_of_ne req.op db row.serial (req.time 1) hk
  obtain hsame|hone|hall := changeAll_db con req db row
  · exact Or.inl (by rw [hsame])
  · rw [hone]
    by_cases hk : k=row.serial
    · subst hk
      exact Or.inr ⟨Or.inl rfl,req.time 1,rfl⟩
    · exact Or.inl (hkeep hk)
  · rw [hall]
    by_cases hk : k=row.serial
    · subst hk
      refine Or.inr ⟨Or.inl rfl,req.time 1,?_⟩
      exact find_cascade_of_not_mem req 3 _ _ (not_mem_cascadeRows (req.time 1))
    · by_cases hmem : ∃ g∈cascadeRows con req (req.op.apply db row.serial (req.time 1)) row,g.serial=k
      · obtain hsame|⟨time,ht⟩ := find_cascade req 3 (req.op.apply db row.serial (req.time 1)) _
          (cascadeRows_nodup con req _ row) k
        · exact Or.inl (hsame.trans (hkeep hk))
        · refine Or.inr ⟨Or.inr hmem,time,ht.trans ?_⟩
          rw [find_apply,hkeep hk]
          exact (find_apply req.op db k time k).symm
      · left
        rw [find_cascade_of_not_mem req 3 _ _ fun g hg hgk => hmem ⟨g,hg,hgk⟩]
        exact hkeep hk

/-- Where no call throws, the handler goes through its loop and answers with success. -/
theorem changeAll_ok (hok : ∀ i≥1,(req.calls i).fate=.ok) :
    (changeAll con req db row).1=(cascade req 3 (req.op.apply db row.serial (req.time 1))
      (cascadeRows con req (req.op.apply db row.serial (req.time 1)) row)).1 ∧
    (changeAll con req db row).2.code=200 := by
  have hdone := (cascade_ok req 3 (fun j hj => hok j (by omega))
    (req.op.apply db row.serial (req.time 1))
    (cascadeRows con req (req.op.apply db row.serial (req.time 1)) row)
    (cascadeRows_nodup con req _ row)).1
  simp only [changeAll,hok 1 le_rfl,hok 2 (by omega),ne_eq,not_true_eq_false,and_false,if_false]
  split
  · next hcascade =>
    rw [hcascade] at hdone
    cases hdone
  · next hcascade _ => exact ⟨by rw [hcascade],rfl⟩
  · next i hcascade _ =>
    rw [hcascade] at hdone
    have hi : i≥1 := by
      have := Option.some.inj hdone
      omega
    exact ⟨by rw [hcascade],by rw [if_pos (hok i hi)]; rfl⟩

/-- Then every row of the loop is changed, and so is the named one. -/
theorem find_changeAll_ok (hok : ∀ i≥1,(req.calls i).fate=.ok) (g : Row)
    (hg : g=row ∨ g∈cascadeRows con req (req.op.apply db row.serial (req.time 1)) row) :
    ∃ time,(changeAll con req db row).1.find g.serial=(req.op.apply db g.serial time).find g.serial := by
  rw [(changeAll_ok hok).1]
  obtain rfl|hg := hg
  · exact ⟨req.time 1,find_cascade_of_not_mem req 3 _ _ (not_mem_cascadeRows (req.time 1))⟩
  · obtain ⟨time,ht⟩ := (cascade_ok req 3 (fun j hj => hok j (by omega))
      (req.op.apply db row.serial (req.time 1)) _ (cascadeRows_nodup con req _ row)).2 g hg
    refine ⟨time,ht.trans ?_⟩
    rw [find_apply,find_apply_of_ne req.op db row.serial (req.time 1) (not_mem_cascadeRows _ g hg)]
    exact (find_apply req.op db g.serial time g.serial).symm

/-- The request reaches its writes for this row. -/
structure Admits (con : Console) (db : Inventory) (caller : Caller) (path : String) (op : HoldOp)
    (row : Row) : Prop where
  enabled : con.webAllowRevoke=true
  found : db.find (canonicalSerial path)=some row
  may : mayRevoke con caller (authRow row)=true
  accepted : op.refusal row.toCertRow=none

theorem postHold_cases (con : Console) (db : Inventory) (req : PostHold) :
    ((postHold con db req).1=db ∧ ((postHold con db req).2.code=200 →
      ∃ row held,db.find (canonicalSerial req.path)=some row ∧
        req.op.refusal row.toCertRow=some (.alreadyRevoked held))) ∨
    ∃ row,Admits con db req.caller req.path req.op row ∧
      postHold con db req=changeAll con req db row := by
  simp only [postHold,Inventory.getCert]
  split_ifs with hoff hfate
  · exact Or.inl ⟨rfl,fun h => by cases h⟩
  · exact Or.inl ⟨rfl,fun h => by cases h⟩
  · cases hfind : db.find (canonicalSerial req.path) with
    | none => exact Or.inl ⟨rfl,fun h => by cases h⟩
    | some row =>
      simp only
      split_ifs with hmay
      · cases hre : req.op.refusal row.toCertRow with
        | none => exact Or.inr ⟨row,⟨by simpa using hoff,hfind,hmay,hre⟩,rfl⟩
        | some reply =>
          refine Or.inl ⟨rfl,fun hcode => ⟨row,?_⟩⟩
          cases reply with
          | alreadyRevoked held => exact ⟨held,rfl,hre⟩
          | done also =>
            -- no refusal is an answer of success
            cases hop : req.op with
            | revoke reason =>
              rw [hop] at hre
              simp only [HoldOp.refusal] at hre
              split_ifs at hre
              all_goals cases hre
            | release =>
              rw [hop] at hre
              simp only [HoldOp.refusal] at hre
              split_ifs at hre
              all_goals cases hre
          | _ => cases hcode
      · exact Or.inl ⟨rfl,fun h => by cases h⟩
      · exact Or.inl ⟨rfl,fun h => by cases h⟩

theorem postHold_of_admits {con : Console} {db : Inventory} {req : PostHold} {row : Row}
    (h : Admits con db req.caller req.path req.op row) (hok : (req.calls 0).fate=.ok) :
    postHold con db req=changeAll con req db row := by
  simp [postHold,Inventory.getCert,h.enabled,h.found,h.may,h.accepted,hok]

end Rows

/-- Some row of the CA has the subject of this one. -/
def SharesSubject (db : Inventory) (x : String) (row : Row) : Prop :=
  ∃ p∈db.rows,p.id=some x ∧ p.sHash=row.sHash

/-- If the request reaches its writes, every row without an id that the CA issued, that the caller
may change and that the operation would change is a certificate of the CA itself. -/
def StraysOwn (con : Console) (db : Inventory) (x : String) (caller : Caller) (path : String)
    (op : HoldOp) : Prop :=
  ∀ row,Admits con db caller path op row → ∀ g∈db.rows,g.isCa=true → g.id=none →
    (∃ h∈caSubjects db x,g.iHash=some h) → (g.status=some 0 ∨ onHold g.toCertRow=true) →
    op.cond g.toCertRow=true → mayRevoke con caller (authRow g)=true → SharesSubject db x g

theorem sharesSubject_of_changed {con : Console} {db : Inventory} {x : String} (hx : x≠"")
    {req : PostHold} {row : Row} (hadm : Admits con db req.caller req.path req.op row)
    (hid : row.id=some x) (hstrays : StraysOwn con db x req.caller req.path req.op)
    {k : String} {r r' : Row} (hr : db.find k=some r)
    (hr' : (changeAll con req db row).1.find k=some r') (hne : r'.toCertRow≠r.toCertRow) :
    SharesSubject db x r := by
  obtain ⟨hmem,hkey⟩ := Keyed.find_eq_some.mp hr
  obtain hsame|⟨hwho,time,ht⟩ := find_changeAll con req db row k
  · rw [hsame,hr] at hr'
    exact absurd (congrArg Row.toCertRow (Option.some.inj hr').symm) hne
  · have hcond : req.op.cond r.toCertRow=true := by
      by_contra hno
      rw [ht,find_apply,hr] at hr'
      simp only [Option.map_some,hno,Option.some.injEq] at hr'
      exact hne (congrArg Row.toCertRow hr'.symm)
    obtain hnamed|⟨g,hg,hgk⟩ := hwho
    · have hrow := Keyed.find_eq_some.mp hadm.found
      have hsame : r=row := db.eq_of_key hmem hrow.1 (hkey.trans hnamed)
      exact ⟨row,hrow.1,hid,by rw [hsame]⟩
    · obtain ⟨_,hgmem,_,halive,hgca,hgid|⟨hgid,hhash⟩,hmay⟩ := (mem_cascadeRows hx hid).mp hg
      all_goals obtain rfl : r=g := db.eq_of_key hmem hgmem (hkey.trans hgk.symm)
      · exact ⟨r,hmem,hgid,rfl⟩
      · exact hstrays row hadm r hmem hgca hgid hhash halive hcond hmay

/-- Whatever calls fail, a revocation, hold or release of a CA changes only rows that share a
subject with the CA, exactly when every such row without an id does. -/
theorem ca_hold_keeps_others_iff (con : Console) (db : Inventory) (x : String) (hx : x≠"")
    (caller : Caller) (path : String) (op : HoldOp) (now : Int)
    (hrow : ∃ row,db.find (canonicalSerial path)=some row ∧ row.isCa=true ∧ row.id=some x) :
    (∀ calls k r r',db.find k=some r →
      (postHold con db ⟨caller,path,op,now,calls⟩).1.find k=some r' → r'.toCertRow≠r.toCertRow →
      SharesSubject db x r) ↔ StraysOwn con db x caller path op := by
  obtain ⟨named,hnamed,hca,hid⟩ := hrow
  constructor
  · intro h row hadm g hg hgca hgid hhash halive hcond hmay
    obtain rfl : named=row := Option.some.inj (hnamed.symm.trans hadm.found)
    -- a request none of whose calls throws reaches the row
    let req : PostHold := ⟨caller,path,op,now,fun _ => ⟨0,.ok⟩⟩
    have hok : ∀ i,(req.calls i).fate=.ok := fun _ => rfl
    have hne : g.serial≠named.serial := by
      intro hsame
      obtain rfl := db.eq_of_key hg (Keyed.find_eq_some.mp hnamed).1 hsame
      rw [hgid] at hid
      cases hid
    have hmem : g∈cascadeRows con req (req.op.apply db named.serial (req.time 1)) named :=
      (mem_cascadeRows hx hid).mpr ⟨hca,hg,hne,halive,hgca,Or.inr ⟨hgid,hhash⟩,hmay⟩
    obtain ⟨time,ht⟩ := find_changeAll_ok (fun i _ => hok i) g (Or.inr hmem)
    have hfind := Keyed.find_of_mem hg
    have hset : (changeAll con req db named).1.find g.serial=
        some { g with toCertRow := op.set time g.toCertRow } := by
      rw [ht,find_apply,hfind]
      simp [req,hcond]
    refine h req.calls g.serial g { g with toCertRow := op.set time g.toCertRow } hfind ?_
      (op.set_ne time hcond)
    rw [← hset,← postHold_of_admits hadm (hok 0)]
  · intro hstrays calls k r r' hr hr' hne
    obtain ⟨hsame,_⟩|⟨row,hadm,hchange⟩ := postHold_cases con db ⟨caller,path,op,now,calls⟩
    · rw [hsame,hr] at hr'
      exact absurd (congrArg Row.toCertRow (Option.some.inj hr').symm) hne
    · obtain rfl : named=row := Option.some.inj (hnamed.symm.trans hadm.found)
      rw [hchange] at hr'
      exact sharesSubject_of_changed hx hadm hid hstrays hr hr' hne

/-- A root, and a certificate for another CA name that it issued and that is stored with no id. -/
def rootRows (subject : Octets) : List Row := [caRow 1 (some "root") [1] [1],caRow 4 none subject [1]]

theorem rootRows_distinct (subject : Octets) : ((rootRows subject).map Row.serial).Nodup := by
  have hserials : [serialHex 1,serialHex 4].Nodup := by decide
  exact hserials

def rootAnd (subject : Octets) : Inventory := ⟨rootRows subject,rootRows_distinct subject⟩

def adminConsole : Console := ⟨true,false,[⟨"op","*:*","*"⟩]⟩

def smoothCalls : Nat → Call := fun _ => ⟨800,.ok⟩

theorem ca_hold_keeps_others_self_issued :
    (∃ row,(rootAnd [1]).find (canonicalSerial "01")=some row ∧ row.isCa=true ∧ row.id=some "root") ∧
    ∀ calls k r r',(rootAnd [1]).find k=some r →
      (postHold adminConsole (rootAnd [1]) ⟨operator,"01",.revoke 4,1000,calls⟩).1.find k=some r' →
      r'.toCertRow≠r.toCertRow → SharesSubject (rootAnd [1]) "root" r := by
  have hrow : ∃ row,(rootAnd [1]).find (canonicalSerial "01")=some row ∧ row.isCa=true ∧
      row.id=some "root" := ⟨caRow 1 (some "root") [1] [1],by decide,rfl,rfl⟩
  refine ⟨hrow,(ca_hold_keeps_others_iff adminConsole (rootAnd [1]) "root" (by decide) operator "01"
    (.revoke 4) 1000 hrow).mpr ?_⟩
  intro row _ g hg _ _ _ _ _ _
  have hall : ∀ g∈rootRows [1],(caRow 1 (some "root") [1] [1]).sHash=g.sHash := by decide
  exact ⟨caRow 1 (some "root") [1] [1],by decide,rfl,hall g hg⟩

/-- Revoking the root revokes the certificate of the other CA. -/
theorem ca_revocation_takes_cross_certificate :
    ∃ r r',(rootAnd [9]).find "4"=some r ∧
      (postHold adminConsole (rootAnd [9]) ⟨operator,"01",.revoke 4,1000,smoothCalls⟩).1.find "4"=some r' ∧
      r'.toCertRow≠r.toCertRow ∧ ¬SharesSubject (rootAnd [9]) "root" r := by
  refine ⟨caRow 4 none [9] [1],Crl.revokedRow (caRow 4 none [9] [1]),?_,?_,?_,?_⟩
  · decide
  · decide
  · decide
  · intro h
    obtain ⟨p,hp,hid,hhash⟩ := h
    have hall : ∀ p∈rootRows [9],p.id=some "root" → p.sHash≠some [9] := by decide
    exact hall p hp hid hhash

/-- Valid or on hold. -/
def Alive (row : Row) : Prop := row.status=some 0 ∨ onHold row.toCertRow=true

/-- A row of the CA: it carries the id, or no id and is self-issued under a subject of the CA. -/
def OfCa (db : Inventory) (x : String) (row : Row) : Prop :=
  row.id=some x ∨ (row.isCa=true ∧ row.id=none ∧ row.sHash=row.iHash ∧
    ∃ h∈caSubjects db x,row.iHash=some h)

def AllDead (x : String) (db : Inventory) : Prop := ∀ row∈db.rows,OfCa db x row → ¬Alive row

/-- Once a row with the id is revoked for good, no row of the CA is left alive. -/
def Whole (x : String) (db : Inventory) : Prop :=
  (∃ row∈db.rows,row.id=some x ∧ row.status=some (-1) ∧ onHold row.toCertRow=false) → AllDead x db

/-- A revocation for good that names a row of the CA, by a caller who may revoke every row. -/
structure AsksCa (con : Console) (x : String) (db : Inventory) (req : PostHold) : Prop where
  op : ∃ reason,req.op=.revoke reason ∧ reason≠6
  names : ∀ row,db.find (canonicalSerial req.path)=some row → row.id=some x
  may : ∀ row∈db.rows,mayRevoke con req.caller (authRow row)=true

/-- No call throws once the first revocation of the request has been carried out. -/
def Unbroken (req : PostHold) : Prop :=
  (req.calls 1).fate≠.throws true ∧ ((req.calls 1).fate=.ok → ∀ i≥2,(req.calls i).fate=.ok)

section Whole

variable {con : Console} {x : String} {db : Inventory} {req : PostHold} {row : Row}

theorem not_alive_set (reason : Int) (hreason : reason≠6) (time : Int) (g : Row) :
    ¬Alive { g with toCertRow := (HoldOp.revoke reason).set time g.toCertRow } := by
  simp [Alive,HoldOp.set,onHold,hreason]

theorem cond_of_alive {reason : Int} (hreason : reason≠6) {g : Row} (h : Alive g) :
    (HoldOp.revoke reason).cond g.toCertRow=true := by
  obtain hvalid|hheld := h
  · simp [HoldOp.cond,revocable,hvalid]
  · simp only [onHold,decide_eq_true_eq] at hheld
    simp [HoldOp.cond,revocable,hheld.2,hreason]

/-- A row the request did not refuse is changed by it. -/
theorem cond_of_accepted {reason : Int} (hreason : reason≠6) {g : CertRow}
    (h : (HoldOp.revoke reason).refusal g=none) : (HoldOp.revoke reason).cond g=true := by
  simp only [HoldOp.refusal] at h
  split_ifs at h with hre hdone
  simp only [HoldOp.cond,revocable,decide_eq_true_eq]
  by_cases hstatus : g.status=some (-1)
  · right
    simp only [hstatus,true_and,not_or,not_not] at hdone
    simp only [onHold,decide_eq_true_eq] at hdone
    exact ⟨hdone.1.2,hreason⟩
  · exact Or.inl hstatus

/-- The early answer of success: the named row is revoked for good. -/
theorem revoked_of_refusal {reason : Int} (hreason : reason≠6) {g : CertRow} {held : Bool}
    (h : (HoldOp.revoke reason).refusal g=some (.alreadyRevoked held)) :
    g.status=some (-1) ∧ onHold g=false := by
  simp only [HoldOp.refusal] at h
  by_cases hbad : revocationReasonRefusal reason≠""
  · rw [if_pos hbad] at h
    cases h
  · rw [if_neg hbad] at h
    split_ifs at h with hdone
    refine ⟨hdone.1,?_⟩
    simpa [hreason] using hdone.2

/-- The second table has the rows of the first, with other revocation columns. -/
def Rewritten (db db' : Inventory) : Prop :=
  ∀ k,∃ f : CertRow → CertRow,
    db'.find k=(db.find k).map fun r => { r with toCertRow := f r.toCertRow }

theorem Rewritten.back {db' : Inventory} (h : Rewritten db db') {r' : Row} (hr' : r'∈db'.rows) :
    ∃ r∈db.rows,∃ c,r'={ r with toCertRow := c } := by
  obtain ⟨f,hf⟩ := h r'.serial
  rw [Keyed.find_of_mem hr'] at hf
  obtain ⟨r,hr,hset⟩ := Option.map_eq_some_iff.mp hf.symm
  exact ⟨r,(Keyed.find_eq_some.mp hr).1,f r.toCertRow,hset.symm⟩

theorem Rewritten.mem_caSubjects {db' : Inventory} (h : Rewritten db db') (y : String) (hash : Octets) :
    hash∈caSubjects db' y ↔ hash∈caSubjects db y := by
  constructor
  · intro hmem
    obtain ⟨p,hp,hca,hid,hh⟩ := Crl.mem_caSubjects.mp hmem
    obtain ⟨r,hr,c,rfl⟩ := h.back hp
    exact Crl.mem_caSubjects.mpr ⟨r,hr,hca,hid,hh⟩
  · intro hmem
    obtain ⟨p,hp,hca,hid,hh⟩ := Crl.mem_caSubjects.mp hmem
    obtain ⟨f,hf⟩ := h p.serial
    rw [Keyed.find_of_mem hp,Option.map_some] at hf
    exact Crl.mem_caSubjects.mpr ⟨_,(Keyed.find_eq_some.mp hf).1,hca,hid,hh⟩

theorem Rewritten.ofCa_iff {db' : Inventory} (h : Rewritten db db') (r : Row) (c : CertRow) :
    OfCa db' x { r with toCertRow := c } ↔ OfCa db x r := by
  simp only [OfCa,h.mem_caSubjects]

variable (con db req row) in
theorem rewritten_changeAll : Rewritten db (changeAll con req db row).1 := by
  intro k
  have hid : ∀ o : Option Row,o.map (fun r => { r with toCertRow := id r.toCertRow })=o := by
    intro o
    cases o <;> rfl
  obtain hsame|⟨_,time,ht⟩ := find_changeAll con req db row k
  · exact ⟨id,by rw [hsame,hid]⟩
  · refine ⟨fun c => if req.op.cond c=true then req.op.set time c else c,?_⟩
    rw [ht,find_apply]
    congr 1
    funext r
    by_cases hc : req.op.cond r.toCertRow=true
    · simp [hc]
    · simp [hc]

/-- A request that goes through leaves nothing of the CA alive. -/
theorem allDead_changeAll (hx : x≠"") (hca : ∀ r∈db.rows,r.id=some x → r.isCa=true)
    (hask : AsksCa con x db req) (hadm : Admits con db req.caller req.path req.op row)
    (hok : ∀ i≥1,(req.calls i).fate=.ok) : AllDead x (changeAll con req db row).1 := by
  obtain ⟨reason,hop,hreason⟩ := hask.op
  have hid := hask.names row hadm.found
  have hrow := (Keyed.find_eq_some.mp hadm.found).1
  intro r' hr' hof halive
  obtain ⟨r,hr,c,rfl⟩ := (rewritten_changeAll con db req row).back hr'
  have hofr := ((rewritten_changeAll con db req row).ofCa_iff r c).mp hof
  have hfind' : (changeAll con req db row).1.find r.serial=some { r with toCertRow := c } :=
    Keyed.find_of_mem hr'
  -- a row that a call changed is revoked for good
  have hdead : r=row ∨ r∈cascadeRows con req (req.op.apply db row.serial (req.time 1)) row →
      req.op.cond r.toCertRow=true → False := by
    intro hg hcond
    obtain ⟨time,ht⟩ := find_changeAll_ok hok r hg
    rw [hfind',find_apply,Keyed.find_of_mem hr] at ht
    simp only [Option.map_some,hcond,and_self,if_true,Option.some.injEq] at ht
    rw [ht,hop] at halive
    exact not_alive_set reason hreason time r halive
  by_cases hnamed : r=row
  · refine hdead (Or.inl hnamed) ?_
    rw [hnamed,hop]
    exact cond_of_accepted hreason (hop ▸ hadm.accepted)
  · have hne : r.serial≠row.serial := fun hs => hnamed (db.eq_of_key hr hrow hs)
    by_cases hmem : r∈cascadeRows con req (req.op.apply db row.serial (req.time 1)) row
    · refine hdead (Or.inr hmem) ?_
      rw [hop]
      exact cond_of_alive hreason ((mem_cascadeRows hx hid).mp hmem).2.2.2.1
    · -- a row the loop does not visit is as it was, so it was not alive
      have hsame : (changeAll con req db row).1.find r.serial=db.find r.serial := by
        obtain hs|⟨hs|⟨g,hg,hgk⟩,_⟩ := find_changeAll con req db row r.serial
        · exact hs
        · exact absurd hs hne
        · have hgr := ((mem_cascadeRows hx hid).mp hg).2.1
          exact absurd (db.eq_of_key hgr hr hgk ▸ hg) hmem
      rw [hfind',Keyed.find_of_mem hr] at hsame
      rw [Option.some.inj hsame] at halive
      apply hmem
      refine (mem_cascadeRows hx hid).mpr ⟨hca row hrow hid,hr,hne,halive,?_,?_,hask.may r hr⟩
      · obtain hx'|⟨hisCa,_⟩ := hofr
        · exact hca r hr hx'
        · exact hisCa
      · obtain hx'|⟨_,hnone,_,hhash⟩ := hofr
        · exact Or.inl hx'
        · exact Or.inr ⟨hnone,hhash⟩

theorem whole_postHold (hx : x≠"") (hwhole : Whole x db)
    (hca : ∀ r∈db.rows,r.id=some x → r.isCa=true) (hask : AsksCa con x db req)
    (hfine : Unbroken req) :
    Whole x (postHold con db req).1 ∧
      (∀ r∈(postHold con db req).1.rows,r.id=some x → r.isCa=true) ∧
      ((postHold con db req).2.code=200 → AllDead x (postHold con db req).1) := by
  obtain ⟨hsame,hcode⟩|⟨row,hadm,hchange⟩ := postHold_cases con db req
  · rw [hsame]
    refine ⟨hwhole,hca,fun h => ?_⟩
    obtain ⟨row,held,hfind,hre⟩ := hcode h
    obtain ⟨reason,hop,hreason⟩ := hask.op
    rw [hop] at hre
    obtain ⟨hrev,hheld⟩ := revoked_of_refusal hreason hre
    exact hwhole ⟨row,(Keyed.find_eq_some.mp hfind).1,hask.names row hfind,hrev,hheld⟩
  · rw [hchange]
    have hids : ∀ r∈(changeAll con req db row).1.rows,r.id=some x → r.isCa=true := by
      intro r' hr' hid'
      obtain ⟨r,hr,c,rfl⟩ := (rewritten_changeAll con db req row).back hr'
      exact hca r hr hid'
    by_cases hfirst : (req.calls 1).fate=.ok
    · have hok : ∀ i≥1,(req.calls i).fate=.ok := by
        intro i hi
        obtain rfl|hi := Nat.eq_or_lt_of_le hi
        · exact hfirst
        · exact hfine.2 hfirst i hi
      have hdead := allDead_changeAll hx hca hask hadm hok
      exact ⟨fun _ => hdead,hids,fun _ => hdead⟩
    · -- the first revocation threw and was not carried out
      have hthrows : (req.calls 1).fate=.throws false := by
        cases hf : (req.calls 1).fate with
        | ok => exact absurd hf hfirst
        | throws applied =>
          cases applied with
          | false => rfl
          | true => exact absurd hf hfine.1
      have hnone : changeAll con req db row=(db,.failed) := by simp [changeAll,hthrows]
      rw [hnone]
      exact ⟨hwhole,hca,fun h => by cases h⟩

end Whole

/-- In a run of requests to revoke a CA in which none breaks off after its first revocation, an
answer of success leaves no row of the CA valid or on hold. -/
theorem ca_revoked_whole (con : Console) (x : String) (hx : x≠"") (db : Inventory)
    (hwhole : Whole x db) (hca : ∀ row∈db.rows,row.id=some x → row.isCa=true)
    (reqs : List PostHold) (req : PostHold)
    (hreqs : Along (fun db req => (postHold con db req).1)
      (fun db req => AsksCa con x db req ∧ Unbroken req) db (reqs++[req])) :
    let before := run (fun db req => (postHold con db req).1) db reqs
    (postHold con before req).2.code=200 → AllDead x (postHold con before req).1 := by
  intro before
  obtain ⟨hfirst,hlast,_⟩ := along_append.mp hreqs
  have hinv := hfirst.invariant (I := fun db => Whole x db ∧ ∀ r∈db.rows,r.id=some x → r.isCa=true)
    (fun db req h hq => by
      obtain ⟨hw,hids,_⟩ := whole_postHold hx h.1 h.2 hq.1 hq.2
      exact ⟨hw,hids⟩) ⟨hwhole,hca⟩
  exact (whole_postHold hx hinv.1 hinv.2 hlast.1 hlast.2).2.2

/-- A root and two generations of a subordinate CA. -/
def twoGenerationRows : List Row :=
  [caRow 1 (some "root") [1] [1],caRow 2 (some "sub") [2] [1],caRow 3 (some "sub") [2] [1]]

theorem twoGenerationRows_distinct : (twoGenerationRows.map Row.serial).Nodup := by decide

def twoGenerations : Inventory := ⟨twoGenerationRows,twoGenerationRows_distinct⟩

/-- The revocation of a generation, in which only this call throws. -/
def revokeBut (path : String) (i : Nat) (applied : Bool) : PostHold :=
  ⟨operator,path,.revoke 4,1000,fun j => ⟨800,if j = i then .throws applied else .ok⟩⟩

def revokeSmooth (path : String) : PostHold := ⟨operator,path,.revoke 4,1000,smoothCalls⟩

/-- The table after the requests. -/
def afterHolds (db : Inventory) (reqs : List PostHold) : Inventory :=
  run (fun db req => (postHold adminConsole db req).1) db reqs

theorem asksCa_of_serials {db : Inventory} {req : PostHold} {row : Row}
    (hop : req.op=.revoke 4) (hfind : db.find (canonicalSerial req.path)=some row)
    (hid : row.id=some "sub") (hmay : ∀ row∈db.rows,mayRevoke adminConsole req.caller (authRow row)=true) :
    AsksCa adminConsole "sub" db req where
  op := ⟨4,hop,by decide⟩
  names := by
    intro r hr
    rw [hfind] at hr
    exact Option.some.inj hr ▸ hid
  may := hmay

theorem ca_revoked_whole_after_retry :
    (postHold adminConsole (afterHolds twoGenerations [revokeBut "02" 1 false])
      (revokeSmooth "02")).2=.done ["3"] ∧
    AllDead "sub" (postHold adminConsole (afterHolds twoGenerations [revokeBut "02" 1 false])
      (revokeSmooth "02")).1 := by
  have hids : ∀ row∈twoGenerations.rows,row.id=some "sub" → row.isCa=true := by decide
  have hvalid : ∀ row∈twoGenerations.rows,row.status=some 0 := by decide
  have hwhole : Whole "sub" twoGenerations := by
    intro h
    obtain ⟨row,hrow,_,hrev,_⟩ := h
    rw [hvalid row hrow] at hrev
    cases hrev
  have hsame : afterHolds twoGenerations [revokeBut "02" 1 false]=twoGenerations := rfl
  have hmay : ∀ row∈twoGenerations.rows,mayRevoke adminConsole operator (authRow row)=true := by decide
  have hfind : twoGenerations.find (canonicalSerial "02")=some (caRow 2 (some "sub") [2] [1]) := by decide
  have hdone : (postHold adminConsole twoGenerations (revokeSmooth "02")).2=.done ["3"] := by decide
  rw [hsame]
  have hcode : (postHold adminConsole twoGenerations (revokeSmooth "02")).2.code=200 := by
    rw [hdone]
    rfl
  refine ⟨hdone,ca_revoked_whole adminConsole "sub" (by decide) twoGenerations hwhole hids
    [revokeBut "02" 1 false] (revokeSmooth "02") ?_ hcode⟩
  refine ⟨⟨asksCa_of_serials rfl hfind rfl hmay,by decide,fun h => by cases h⟩,?_,trivial⟩
  exact ⟨asksCa_of_serials rfl hfind rfl hmay,by decide,fun _ i _ => rfl⟩

/-- The first request revokes the named generation and fails to read the others; the second finds
that generation revoked, answers success and leaves the other valid. -/
theorem ca_revocation_retry_leaves_generation :
    AsksCa adminConsole "sub" twoGenerations (revokeBut "02" 2 false) ∧
    AsksCa adminConsole "sub" (afterHolds twoGenerations [revokeBut "02" 2 false]) (revokeSmooth "02") ∧
    (postHold adminConsole twoGenerations (revokeBut "02" 2 false)).2=.failed ∧
    (postHold adminConsole (afterHolds twoGenerations [revokeBut "02" 2 false])
      (revokeSmooth "02")).2=.alreadyRevoked false ∧
    ¬AllDead "sub" (postHold adminConsole (afterHolds twoGenerations [revokeBut "02" 2 false])
      (revokeSmooth "02")).1 := by
  have hfind : twoGenerations.find (canonicalSerial "02")=some (caRow 2 (some "sub") [2] [1]) := by decide
  have hfind' : (afterHolds twoGenerations [revokeBut "02" 2 false]).find (canonicalSerial "02")=
      some (Crl.revokedRow (caRow 2 (some "sub") [2] [1])) := by decide
  refine ⟨asksCa_of_serials rfl hfind rfl (by decide),asksCa_of_serials rfl hfind' rfl (by decide),
    by decide,by decide,?_⟩
  intro hdead
  exact hdead (caRow 3 (some "sub") [2] [1]) (by decide) (Or.inl rfl) (Or.inl rfl)

end FastPki.Ca
