import FastPki.Notify.Email

namespace FastPki.Notify
open Certs

/-- A row of the certificate: what no step changes of it. -/
structure RowOf (k owner : String) (na : Int) (row : Row) : Prop where
  serial : row.serial=k
  owner : row.owner=owner
  notAfter : row.notAfter=some na

/-- The recorded stage is the last one that was emailed, or it was forgotten after the expiry. -/
def Settled (r : Option Int) (stages : List Int) (row : CertRow) : Prop :=
  r=stages.head? ∨ (0∈stages ∧ row.status≠some 0)

def batchStages (k : String) (batches : List Batch) : List Int :=
  ((batches.flatMap Batch.lines).filter (·.serial = k)).map Line.stage

/-- What a run under way knows, by where it stands: `r` is the recorded stage, `stages` are those
emailed. -/
def JobInv (k owner : String) (na : Int) (r : Option Int) (stages : List Int) (clock : Int)
    (row : CertRow) : Option Job → Prop
  | some (.selected now managed) => Settled r stages row ∧ now ≤ clock ∧
      (managed.map Row.serial).Nodup ∧
      (∀ e∈managed,e.serial=k → RowOf k owner na e ∧ r=stages.head?) ∧
      (na ≤ now → (∃ e∈managed,e.serial=k) ∨ 0∈stages)
  | some (.mailed batches) => (batchStages k batches=[] ∧ Settled r stages row) ∨
      ∃ stage,batchStages k batches=[stage] ∧ stages.head?=some stage ∧ ∀ m,r=some m → stage < m
  | _ => Settled r stages row

structure OnceInv (cfg : EmailConfig) (k owner : String) (na : Int) (s : State) : Prop where
  row : ∃ row,s.db.find k=some row ∧ RowOf k owner na row ∧
    (row.status=some 0 ∨ onHold row.toCertRow=true ∨
      (row.status=some 1 ∧ 0∈stagesOf k s.log)) ∧
    JobInv k owner na (s.sent k) (stagesOf k s.log) s.clock row.toCertRow s.job
  past : 0∈stagesOf k s.log → na ≤ s.clock
  order : (stagesOf k s.log).Pairwise (· < ·)
  nonneg : ∀ stage∈stagesOf k s.log,0 ≤ stage
  honest : ∀ m∈s.log,∀ l∈m.lines,l.serial=k → l.stage=expiryStage na m.now cfg.th.days
  first : ∀ (m : Mailing) (before : List Mailing),m::before<:+s.log → na ≤ m.now →
    0∈stagesOf k (m::before)

section Row

variable {cfg : EmailConfig} {k owner : String} {na : Int} {s : State}

theorem Settled.congr {r : Option Int} {stages : List Int} {row row' : CertRow}
    (h : Settled r stages row) (hkeep : 0∈stages → row.status≠some 0 → row'.status≠some 0) :
    Settled r stages row' :=
  h.imp id fun ⟨hzero,hstatus⟩ => ⟨hzero,hkeep hzero hstatus⟩

theorem JobInv.congr {r : Option Int} {stages : List Int} {clock clock' : Int} {row row' : CertRow}
    {job : Option Job} (h : JobInv k owner na r stages clock row job) (hclock : clock ≤ clock')
    (hkeep : 0∈stages → row.status≠some 0 → row'.status≠some 0) :
    JobInv k owner na r stages clock' row' job := by
  match job with
  | none => exact Settled.congr h hkeep
  | some .recorded => exact Settled.congr h hkeep
  | some (.selected now managed) =>
    obtain ⟨hsettled,hnow,hrest⟩ := h
    exact ⟨hsettled.congr hkeep,hnow.trans hclock,hrest⟩
  | some (.mailed batches) => exact h.imp (fun ⟨hnil,hs⟩ => ⟨hnil,hs.congr hkeep⟩) id

/-- A write to the table keeps the invariant where it keeps what is said of the row. -/
theorem OnceInv.setDb (h : OnceInv cfg k owner na s) {db' : Inventory}
    (hrow : ∀ row,s.db.find k=some row → RowOf k owner na row →
      (row.status=some 0 ∨ onHold row.toCertRow=true ∨
        (row.status=some 1 ∧ 0∈stagesOf k s.log)) →
      ∃ row',db'.find k=some row' ∧ RowOf k owner na row' ∧
        (row'.status=some 0 ∨ onHold row'.toCertRow=true ∨
          (row'.status=some 1 ∧ 0∈stagesOf k s.log)) ∧
        (0∈stagesOf k s.log → row.status≠some 0 → row'.status≠some 0)) :
    OnceInv cfg k owner na { s with db := db' } := by
  obtain ⟨row,hfind,hof,hstatus,hjob⟩ := h.row
  obtain ⟨row',hfind',hof',hstatus',hkeep⟩ := hrow row hfind hof hstatus
  exact ⟨⟨row',hfind',hof',hstatus',hjob.congr le_rfl hkeep⟩,h.past,h.order,h.nonneg,h.honest,
    h.first⟩

theorem OnceInv.tick (h : OnceInv cfg k owner na s) (seconds : Nat) :
    OnceInv cfg k owner na { s with clock := s.clock+seconds } := by
  obtain ⟨row,hfind,hof,hstatus,hjob⟩ := h.row
  have hclock : s.clock ≤ s.clock+seconds := by omega
  exact ⟨⟨row,hfind,hof,hstatus,hjob.congr hclock fun _ => id⟩,fun h0 => (h.past h0).trans hclock,
    h.order,h.nonneg,h.honest,h.first⟩

theorem OnceInv.sweep (h : OnceInv cfg k owner na s) (hq : Undisturbed cfg k s .sweep) :
    OnceInv cfg k owner na { s with db := s.db.markExpiredNow s.clock } := by
  apply h.setDb
  intro row hfind hof hstatus
  rw [Inventory.markExpiredNow,Inventory.find_modify,hfind,Option.map_some]
  refine ⟨_,rfl,?_⟩
  split_ifs with hexp
  · refine ⟨⟨hof.serial,hof.owner,hof.notAfter⟩,Or.inr (Or.inr ⟨rfl,hq row hfind hexp⟩),
      fun _ _ => by simp⟩
  · exact ⟨hof,hstatus,fun _ => id⟩

theorem OnceInv.hold (h : OnceInv cfg k owner na s) (serial : String) :
    OnceInv cfg k owner na { s with db := (s.db.revokeCert serial 6 s.clock).1 } := by
  apply h.setDb
  intro row hfind hof hstatus
  rw [Inventory.revokeCert,Inventory.find_modifySerial,hfind,Option.map_some]
  refine ⟨_,rfl,?_⟩
  split_ifs with hhit
  · exact ⟨⟨hof.serial,hof.owner,hof.notAfter⟩,Or.inr (Or.inl (by simp [onHold])),fun _ _ => by simp⟩
  · exact ⟨hof,hstatus,fun _ => id⟩

/-- A release before the expiry makes the certificate valid, one after it makes it expired. -/
theorem OnceInv.release (h : OnceInv cfg k owner na s) (hna : 0<na) {serial : String}
    (hq : Undisturbed cfg k s (.release serial)) :
    OnceInv cfg k owner na { s with db := (s.db.releaseHold serial s.clock).1 } := by
  apply h.setDb
  intro row hfind hof hstatus
  rw [Inventory.releaseHold,Inventory.find_modifySerial,hfind,Option.map_some]
  refine ⟨_,rfl,?_⟩
  split_ifs with hhit hexp
  · obtain ⟨rfl,hhold⟩ := hhit
    have hzero := hq row hfind rfl hhold hexp.2
    exact ⟨⟨hof.serial,hof.owner,hof.notAfter⟩,Or.inr (Or.inr ⟨rfl,hzero⟩),fun _ _ => by simp⟩
  · refine ⟨⟨hof.serial,hof.owner,hof.notAfter⟩,Or.inl rfl,fun hzero => ?_⟩
    rw [hof.notAfter,Option.getD_some] at hexp
    exact absurd ⟨hna,h.past hzero⟩ hexp
  · exact ⟨hof,hstatus,fun _ => id⟩

end Row

section Select

variable {cfg : EmailConfig} {k owner : String} {na : Int} {s : State}

theorem getExpiringCerts_perm (db : Inventory) (cutoff : Int) : (getExpiringCerts db cutoff).Perm
    (db.rows.filter fun r => selected cutoff r.toCertRow) :=
  List.perm_insertionSort _ _

theorem mem_getExpiringCerts {db : Inventory} {cutoff : Int} {e : Row} :
    e∈getExpiringCerts db cutoff ↔ e∈db.rows ∧ selected cutoff e.toCertRow=true := by
  rw [(getExpiringCerts_perm db cutoff).mem_iff,List.mem_filter]

theorem nodup_getExpiringCerts (db : Inventory) (cutoff : Int) :
    ((getExpiringCerts db cutoff).map Row.serial).Nodup := by
  refine ((getExpiringCerts_perm db cutoff).map Row.serial).nodup_iff.mpr ?_
  exact (List.filter_sublist.map Row.serial).nodup db.distinct

theorem lt_cutoff (cfg : EmailConfig) (now : Int) : now<cutoff cfg now := by
  have hpos : 0<cfg.th.days.headD 0 := by
    cases hdays : cfg.th.days with
    | nil => exact absurd hdays cfg.th.nonempty
    | cons w days => exact cfg.th.positive w (by simp [hdays])
  rw [cutoff]
  omega

/-- A run starts: the certificate is among those selected, unless its expiry was emailed. -/
theorem OnceInv.start (h : OnceInv cfg k owner na s) (hjob : s.job=none)
    (hq : Undisturbed cfg k s .notify) : OnceInv cfg k owner na (notifyStep cfg s) := by
  obtain ⟨row,hfind,hof,hstatus,hsettled⟩ := h.row
  rw [hjob] at hsettled
  have hfree : onHold row.toCertRow=false := by
    have hrow := hq row hfind
    rwa [hjob] at hrow
  rw [notifyStep,hjob]
  refine ⟨⟨row,hfind,hof,hstatus,hsettled,le_rfl,nodup_getExpiringCerts _ _,?_,?_⟩,h.past,h.order,
    h.nonneg,h.honest,h.first⟩
  · intro e he hserial
    obtain ⟨hmem,hsel⟩ := mem_getExpiringCerts.mp he
    have hsame : s.db.find k=some e := Keyed.find_eq_some.mpr ⟨hmem,hserial⟩
    obtain rfl := Option.some.inj (hsame.symm.trans hfind)
    simp only [selected,decide_eq_true_eq] at hsel
    exact ⟨hof,hsettled.resolve_right fun hforgot => hforgot.2 hsel.1⟩
  · intro hexp
    rcases hstatus with hvalid|hhold|⟨_,hzero⟩
    · refine Or.inl ⟨row,mem_getExpiringCerts.mpr ⟨(Keyed.find_eq_some.mp hfind).1,?_⟩,hof.serial⟩
      simp only [selected,decide_eq_true_eq]
      exact ⟨hvalid,na,hof.notAfter,lt_of_le_of_lt hexp (lt_cutoff cfg s.clock)⟩
    · rw [hfree] at hhold
      cases hhold
    · exact Or.inr hzero

end Select

section Mail

variable {cfg : EmailConfig} {k owner : String} {na : Int} {s : State}

theorem serial_of_lineOf {db : Inventory} {sent : String → Option Int} {now : Int} {e : Row}
    {p : String × Line} (h : lineOf cfg db sent now e=some p) :
    p.2=⟨e.serial,expiryStage (e.notAfter.getD 0) now cfg.th.days⟩ := by
  simp only [lineOf] at h
  split_ifs at h
  all_goals
    obtain ⟨address,_,rfl⟩ := Option.map_eq_some_iff.mp h
    rfl

/-- The stages of one certificate among the lines of a run. -/
theorem batchStages_batchesOf {f : Row → Option (String × Line)}
    (hf : ∀ e p,f e=some p → p.2.serial=e.serial) (managed : List Row) :
    (batchStages k (batchesOf (managed.filterMap f))).Perm
      (((managed.filter (·.serial = k)).filterMap f).map (·.2.stage)) := by
  refine (((batchesOf_perm _).filter _).map _).trans (List.Perm.of_eq ?_)
  induction managed with
  | nil => rfl
  | cons e managed ih =>
    cases hfe : f e with
    | none =>
      rw [List.filterMap_cons_none hfe,ih,List.filter_cons]
      split_ifs
      · rw [List.filterMap_cons_none hfe]
      · rfl
    | some p =>
      rw [List.filterMap_cons_some hfe,List.map_cons,List.filter_cons,List.filter_cons,hf e p hfe]
      split_ifs
      · rw [List.map_cons,List.filterMap_cons_some hfe,List.map_cons,ih]
      · exact ih

/-- A table of distinct serials has one row of a serial, or none. -/
theorem filter_serial {managed : List Row} (hnodup : (managed.map Row.serial).Nodup) :
    managed.filter (·.serial = k)=[] ∨
      ∃ e∈managed,e.serial=k ∧ managed.filter (·.serial = k)=[e] := by
  induction managed with
  | nil => exact Or.inl rfl
  | cons e managed ih =>
    have hne := key_ne_of_nodup hnodup
    rw [List.map_cons,List.nodup_cons] at hnodup
    by_cases hk : e.serial=k
    · refine Or.inr ⟨e,List.mem_cons_self,hk,?_⟩
      rw [List.filter_cons_of_pos (by simpa using hk)]
      have hnone : managed.filter (·.serial = k)=[] := by
        refine List.filter_eq_nil_iff.mpr fun r hr => ?_
        simpa [← hk] using hne r hr
      rw [hnone]
    · rw [List.filter_cons_of_neg (by simpa using hk)]
      rcases ih hnodup.2 with hnil|⟨r,hr,hserial,hsingle⟩
      · exact Or.inl hnil
      · exact Or.inr ⟨r,List.mem_cons_of_mem _ hr,hserial,hsingle⟩

theorem alreadyReplaced_congr {db : Inventory} {e e' : Row} (he : RowOf k owner na e)
    (he' : RowOf k owner na e') : alreadyReplaced cfg db e=alreadyReplaced cfg db e' := by
  simp only [alreadyReplaced,newerValid,he.serial,he'.serial,he.owner,he'.owner,he.notAfter,
    he'.notAfter]

/-- A line of the certificate is below what is recorded, and there is one where its expiry is not
recorded. -/
theorem lineOf_cases {db : Inventory} (sent : String → Option Int) (now : Int) {e : Row}
    (he : RowOf k owner na e) (haddress : cfg.ownerEmail owner≠"")
    (hissued : issuedByPrefix k cfg.serialPrefix=true) (hreplaced : alreadyReplaced cfg db e=false) :
    (lineOf cfg db sent now e=none ∧ (na ≤ now → ∃ m,sent k=some m ∧ m ≤ 0)) ∨
    ∃ address,lineOf cfg db sent now e=some (address,⟨k,expiryStage na now cfg.th.days⟩) ∧
      0 ≤ expiryStage na now cfg.th.days ∧
      ∀ m,sent k=some m → expiryStage na now cfg.th.days < m := by
  simp only [lineOf,he.serial,he.owner,he.notAfter,Option.getD_some,hissued,hreplaced,
    Bool.not_true,Bool.false_eq_true,if_false]
  split_ifs with hneg hdone
  · refine Or.inl ⟨rfl,fun hexp => ?_⟩
    rw [expiryStage_eq_zero_iff.mpr hexp] at hneg
    omega
  · refine Or.inl ⟨rfl,fun hexp => ?_⟩
    rw [expiryStage_eq_zero_iff.mpr hexp] at hdone
    cases hm : sent k with
    | none =>
      rw [hm] at hdone
      cases hdone
    | some m =>
      rw [hm] at hdone
      exact ⟨m,rfl,by simpa using hdone⟩
  · refine Or.inr ⟨cfg.ownerEmail owner,rfl,by omega,fun m hm => ?_⟩
    rw [hm] at hdone
    simpa using hdone

theorem stagesOf_cons (m : Mailing) (log : List Mailing) :
    stagesOf k (m::log)=batchStages k m.batches++stagesOf k log := rfl

theorem mem_lines_of_mem_batchStages {m : Mailing} {stage : Int}
    (h : stage∈batchStages k m.batches) : ⟨k,stage⟩∈m.lines := by
  obtain ⟨line,hline,rfl⟩ := List.mem_map.mp h
  obtain ⟨hmem,hserial⟩ := List.mem_filter.mp hline
  have hk : line.serial=k := by simpa using hserial
  rwa [← hk]

theorem batchStages_of_mem_lines {m : Mailing} {l : Line} (h : l∈m.lines) (hk : l.serial=k) :
    l.stage∈batchStages k m.batches :=
  List.mem_map.mpr ⟨l,List.mem_filter.mpr ⟨h,by simpa using hk⟩,rfl⟩

/-- A run says nothing of the certificate, or it says one thing that is below what is recorded. -/
theorem OnceInv.said (h : OnceInv cfg k owner na s) (haddress : cfg.ownerEmail owner≠"")
    (hissued : issuedByPrefix k cfg.serialPrefix=true) {now : Int} {managed : List Row}
    (hjob : s.job=some (.selected now managed)) (hq : Undisturbed cfg k s .notify) :
    (batchStages k (batchesOf (managed.filterMap (lineOf cfg s.db s.sent now)))=[] ∧
      (na ≤ now → 0∈stagesOf k s.log)) ∨
    (batchStages k (batchesOf (managed.filterMap (lineOf cfg s.db s.sent now)))=
        [expiryStage na now cfg.th.days] ∧
      0 ≤ expiryStage na now cfg.th.days ∧
      (∀ m,s.sent k=some m → expiryStage na now cfg.th.days < m) ∧
      s.sent k=(stagesOf k s.log).head?) := by
  obtain ⟨row,hfind,hof,_,hinv⟩ := h.row
  rw [hjob] at hinv
  obtain ⟨_,_,hnodup,hmanaged,hexpired⟩ := hinv
  have hreplaced : alreadyReplaced cfg s.db row=false := by
    have hrow := hq row hfind
    rwa [hjob] at hrow
  have hperm := batchStages_batchesOf (k := k) (f := lineOf cfg s.db s.sent now)
    (fun e p hp => by rw [serial_of_lineOf hp]) managed
  rcases filter_serial (k := k) hnodup with hnil|⟨e,he,hserial,hsingle⟩
  · rw [hnil] at hperm
    refine Or.inl ⟨List.perm_nil.mp hperm,fun hexp => (hexpired hexp).resolve_left ?_⟩
    rintro ⟨e,he,hserial⟩
    exact List.filter_eq_nil_iff.mp hnil e he (by simpa using hserial)
  · obtain ⟨hofe,hrecord⟩ := hmanaged e he hserial
    rw [hsingle] at hperm
    rw [alreadyReplaced_congr hof hofe] at hreplaced
    rcases lineOf_cases s.sent now hofe haddress hissued hreplaced with
      ⟨hnone,hdone⟩|⟨address,hsome,hpos,hbelow⟩
    · rw [List.filterMap_cons_none hnone] at hperm
      refine Or.inl ⟨List.perm_nil.mp hperm,fun hexp => ?_⟩
      obtain ⟨m,hm,hle⟩ := hdone hexp
      have hmem : m∈stagesOf k s.log := List.mem_of_head? (hrecord.symm.trans hm)
      obtain rfl : m=0 := le_antisymm hle (h.nonneg m hmem)
      exact hmem
    · rw [List.filterMap_cons_some hsome] at hperm
      exact Or.inr ⟨List.perm_singleton.mp hperm,hpos,hbelow,hrecord⟩

/-- What is below the first of a rising list is below all of it. -/
theorem pairwise_lt_cons {x : Int} {l : List Int} (hl : l.Pairwise (· < ·))
    (hx : ∀ y,l.head?=some y → x<y) : (x::l).Pairwise (· < ·) := by
  refine List.pairwise_cons.mpr ⟨fun y hy => ?_,hl⟩
  cases l with
  | nil => cases hy
  | cons z l =>
    have hz : x<z := hx z rfl
    rcases List.mem_cons.mp hy with rfl|hold
    · exact hz
    · exact hz.trans ((List.pairwise_cons.mp hl).1 y hold)

/-- The emails are sent: at most one line of the certificate, at a stage below the last one. -/
theorem OnceInv.mail (h : OnceInv cfg k owner na s) (haddress : cfg.ownerEmail owner≠"")
    (hissued : issuedByPrefix k cfg.serialPrefix=true) {now : Int} {managed : List Row}
    (hjob : s.job=some (.selected now managed)) (hq : Undisturbed cfg k s .notify) :
    OnceInv cfg k owner na (notifyStep cfg s) := by
  have hcases := h.said haddress hissued hjob hq
  obtain ⟨row,hfind,hof,hstatus,hinv⟩ := h.row
  rw [hjob] at hinv
  obtain ⟨hsettled,hnow,_⟩ := hinv
  set batches := batchesOf (managed.filterMap (lineOf cfg s.db s.sent now))
  have hhonest : ∀ m∈(⟨now,batches⟩ : Mailing)::s.log,∀ l∈m.lines,l.serial=k →
      l.stage=expiryStage na m.now cfg.th.days := by
    intro m hm l hl hserial
    rcases List.mem_cons.mp hm with rfl|hm
    · have hmem := batchStages_of_mem_lines hl hserial
      rcases hcases with ⟨hnil,_⟩|⟨hsingle,_⟩
      · rw [hnil] at hmem
        cases hmem
      · rw [hsingle] at hmem
        exact List.mem_singleton.mp hmem
    · exact h.honest m hm l hl hserial
  have hmono : ∀ stage,stage∈stagesOf k s.log → stage∈stagesOf k (⟨now,batches⟩::s.log) :=
    fun stage hstage => List.mem_append_right _ hstage
  have hfirst : ∀ (m : Mailing) (before : List Mailing),m::before<:+(⟨now,batches⟩::s.log) →
      na ≤ m.now → 0∈stagesOf k (m::before) := by
    intro m before hsuffix hexp
    rcases List.suffix_cons_iff.mp hsuffix with heq|hold
    · obtain ⟨rfl,rfl⟩ := List.cons.inj heq
      rcases hcases with ⟨_,hzero⟩|⟨hsingle,_⟩
      · exact hmono 0 (hzero hexp)
      · rw [stagesOf_cons,hsingle,expiryStage_eq_zero_iff.mpr hexp]
        exact List.mem_cons_self
    · exact h.first m before hold hexp
  rw [notifyStep,hjob]
  change OnceInv cfg k owner na { s with job := some (.mailed batches),
                                         log := ⟨now,batches⟩::s.log }
  rcases hcases with ⟨hnil,_⟩|⟨hsingle,hpos,hbelow,hrecord⟩
  · have hsame : stagesOf k (⟨now,batches⟩::s.log)=stagesOf k s.log := by
      rw [stagesOf_cons,hnil,List.nil_append]
    refine ⟨⟨row,hfind,hof,?_,Or.inl ⟨hnil,?_⟩⟩,?_,?_,?_,hhonest,hfirst⟩
    · simpa only [hsame] using hstatus
    · simpa only [hsame] using hsettled
    · simpa only [hsame] using h.past
    · simpa only [hsame] using h.order
    · simpa only [hsame] using h.nonneg
  · have hsame : stagesOf k (⟨now,batches⟩::s.log)=
        expiryStage na now cfg.th.days::stagesOf k s.log := by
      rw [stagesOf_cons,hsingle]
      rfl
    refine ⟨⟨row,hfind,hof,?_,Or.inr ⟨_,hsingle,by simp only [hsame,List.head?_cons],hbelow⟩⟩,?_,?_,?_,
      hhonest,hfirst⟩
    · exact hstatus.imp id (Or.imp id (And.imp id (hmono 0)))
    · intro hzero
      simp only [hsame] at hzero
      rcases List.mem_cons.mp hzero with hstage|hold
      · exact (expiryStage_eq_zero_iff.mp hstage.symm).trans hnow
      · exact h.past hold
    · simp only [hsame]
      exact pairwise_lt_cons h.order fun last hlast => hbelow last (hrecord.trans hlast)
    · simp only [hsame]
      exact List.forall_mem_cons.mpr ⟨hpos,h.nonneg⟩

end Mail

section Record

variable {cfg : EmailConfig} {k owner : String} {na : Int} {s : State}

theorem OnceInv.record (h : OnceInv cfg k owner na s) {batches : List Batch}
    (hjob : s.job=some (.mailed batches)) : OnceInv cfg k owner na (notifyStep cfg s) := by
  obtain ⟨row,hfind,hof,hstatus,hinv⟩ := h.row
  rw [hjob] at hinv
  rw [notifyStep,hjob]
  refine ⟨⟨row,hfind,hof,hstatus,?_⟩,h.past,h.order,h.nonneg,h.honest,h.first⟩
  have hread : (batches.flatMap Batch.lines).foldl recordNotifyStage s.sent k=
      (batchStages k batches).foldl (fun r stage => some (r.elim stage (min · stage)))
        (s.sent k) :=
    recordAll_apply k _ _
  change Settled ((batches.flatMap Batch.lines).foldl recordNotifyStage s.sent k) _ _
  rw [hread]
  rcases hinv with ⟨hnil,hsettled⟩|⟨stage,hsingle,hlast,hbelow⟩
  · rw [hnil]
    exact hsettled
  · rw [hsingle,List.foldl_cons,List.foldl_nil]
    refine Or.inl (Eq.trans ?_ hlast.symm)
    cases hr : s.sent k with
    | none => rfl
    | some m => exact congrArg some (min_eq_right (hbelow m hr).le)

/-- A run ends: what it forgets has expired. -/
theorem OnceInv.prune (h : OnceInv cfg k owner na s) (hjob : s.job=some .recorded)
    (hq : Undisturbed cfg k s .notify) : OnceInv cfg k owner na (notifyStep cfg s) := by
  obtain ⟨row,hfind,hof,hstatus,hsettled⟩ := h.row
  rw [hjob] at hsettled
  have hfree : onHold row.toCertRow=false := by
    have hrow := hq row hfind
    rwa [hjob] at hrow
  rw [notifyStep,hjob]
  refine ⟨⟨row,hfind,hof,hstatus,?_⟩,h.past,h.order,h.nonneg,h.honest,h.first⟩
  change Settled (pruneNotifySent s.db s.sent k) _ _
  rcases hstatus with hvalid|hhold|⟨hone,hzero⟩
  · have hkept : pruneNotifySent s.db s.sent k=s.sent k := by
      rw [pruneNotifySent,if_pos]
      exact List.any_eq_true.mpr ⟨row,(Keyed.find_eq_some.mp hfind).1,by simp [hof.serial,hvalid]⟩
    rw [hkept]
    exact hsettled
  · rw [hfree] at hhold
    cases hhold
  · exact Or.inr ⟨hzero,by simp [hone]⟩

end Record

section Run

variable {cfg : EmailConfig} {k owner : String} {na : Int} {s : State}

theorem OnceInv.step (h : OnceInv cfg k owner na s) (hna : 0<na)
    (haddress : cfg.ownerEmail owner≠"") (hissued : issuedByPrefix k cfg.serialPrefix=true)
    {a : Act} (ha : Undisturbed cfg k s a) : OnceInv cfg k owner na (step cfg s a) := by
  cases a with
  | tick seconds => exact h.tick seconds
  | sweep => exact h.sweep ha
  | hold serial => exact h.hold serial
  | release serial => exact h.release hna ha
  | notify =>
    change OnceInv cfg k owner na (notifyStep cfg s)
    match hjob : s.job with
    | none => exact h.start hjob ha
    | some (.selected now managed) => exact h.mail haddress hissued hjob ha
    | some (.mailed batches) => exact h.record hjob
    | some .recorded => exact h.prune hjob ha

theorem OnceInv.heardOnce (h : OnceInv cfg k owner na s) : HeardOnce k na s.log := by
  refine ⟨h.order.imp fun hlt => hlt.ne,fun m before hsuffix hexp hbefore => ?_⟩
  have hzero := h.first m before hsuffix hexp
  rw [stagesOf_cons] at hzero
  rcases List.mem_append.mp hzero with hnow|hearlier
  · exact mem_lines_of_mem_batchStages hnow
  · obtain ⟨r,hr,hstage⟩ := List.mem_flatMap.mp hearlier
    have hlog : r∈s.log := hsuffix.subset (List.mem_cons_of_mem m hr)
    have hsays := h.honest r hlog _ (mem_lines_of_mem_batchStages hstage) rfl
    exact absurd (expiryStage_eq_zero_iff.mp hsays.symm) (not_le.mpr (hbefore r hr))

/-- In every run that does not disturb the certificate, its owner hears once of each stage, and of the
expiry from the first run after it. -/
theorem owner_hears_once (cfg : EmailConfig) (k : String) (notAfter : Int) (s : State)
    (hs : Fresh cfg k notAfter s) (as : List Act) (has : Along (step cfg) (Undisturbed cfg k) s as)
    (n : Nat) : HeardOnce k notAfter (run (step cfg) s (as.take n)).log := by
  obtain ⟨row,hfind,hstatus,hafter,haddress⟩ := hs.row
  have hinit : OnceInv cfg k row.owner notAfter s := by
    have hnone : stagesOf k s.log=[] := by rw [hs.log]; rfl
    refine ⟨⟨row,hfind,⟨(Keyed.find_eq_some.mp hfind).2,rfl,hafter⟩,Or.inl hstatus,?_⟩,?_,?_,?_,?_,?_⟩
    · rw [hs.job,hs.sent,hnone]
      exact Or.inl rfl
    · rw [hnone]
      intro hmem
      cases hmem
    · rw [hnone]
      exact List.Pairwise.nil
    · rw [hnone]
      intro stage hmem
      cases hmem
    · rw [hs.log]
      intro m hm
      cases hm
    · rw [hs.log]
      intro m before hsuffix
      cases List.suffix_nil.mp hsuffix
  have hinv := (has.take n).invariant
    (fun _ _ h ha => OnceInv.step h hs.dated haddress hs.issued ha) hinit
  exact hinv.heardOnce

end Run

def threeWindows : Windows := ⟨[30,14,7],by decide,by decide,by decide⟩

def aliceConfig : EmailConfig where
  th := threeWindows
  serialPrefix := 0
  ownerEmail _ := "alice@example.com"
  fallback := none
  subject _ := "CN=host"
  namesOf _ := ["host"]

/-- A certificate that expires at the end of the tenth day. -/
def tenDayRow : Row where
  status := some 0
  revocationReason := none
  revocationDate := none
  notAfter := some 864000
  serial := "1f"
  notBefore := some 0
  owner := "alice"
  cert := [0x30]
  caInstanceId := some "sub"
  sHash := none
  iHash := none
  isCa := false
  id := none
  caEnabled := none
  privateKey := ""
  certId := none
  insSeq := none

def firstDay : State := ⟨⟨[tenDayRow],by decide⟩,fun _ => none,100,none,[]⟩

theorem firstDay_fresh : Fresh aliceConfig "1f" 864000 firstDay :=
  ⟨⟨tenDayRow,by decide,rfl,rfl,by decide⟩,by decide,by decide,rfl,rfl,rfl⟩

/-- The steps of one run of `fastpki-notify`. -/
def notifyRun : List Act := List.replicate 4 .notify

/-- A run in the window of 14 days, a hold and its release, and a run after the expiry before the
sweep. -/
def undisturbedRun : List Act :=
  notifyRun++[.hold "1f",.tick 100,.release "1f",.tick 900000]++notifyRun++[.sweep]++notifyRun

theorem owner_hears_once_alice : Fresh aliceConfig "1f" 864000 firstDay ∧
    Along (step aliceConfig) (Undisturbed aliceConfig "1f") firstDay undisturbedRun ∧
    HeardOnce "1f" 864000 (run (step aliceConfig) firstDay (undisturbedRun.take 17)).log := by
  have h : Along (step aliceConfig) (Undisturbed aliceConfig "1f") firstDay undisturbedRun := by
    decide
  exact ⟨firstDay_fresh,h,
    owner_hears_once aliceConfig "1f" 864000 firstDay firstDay_fresh undisturbedRun h 17⟩

/-- The sweep runs between the expiry and the next run of `fastpki-notify`. -/
def sweptRun : List Act := [.tick 900000,.sweep]++notifyRun

/-- A run of `fastpki-notify` while the certificate is on hold, between two others in one window. -/
def forgottenRun : List Act :=
  notifyRun++[.hold "1f"]++notifyRun++[.release "1f"]++notifyRun

/-- Nothing is said of the expiry in the one run, and one window is emailed twice in the other. -/
theorem sweep_hides_expiry :
    ¬HeardOnce "1f" 864000 (run (step aliceConfig) firstDay sweptRun).log ∧
      ¬HeardOnce "1f" 864000 (run (step aliceConfig) firstDay forgottenRun).log := by
  constructor
  · intro h
    have hlog : (run (step aliceConfig) firstDay sweptRun).log=[⟨900100,[]⟩] := rfl
    rw [hlog] at h
    have hline := h.2 _ [] List.suffix_rfl (by decide) (by simp)
    cases hline
  · intro h
    have hstages : stagesOf "1f" (run (step aliceConfig) firstDay forgottenRun).log=[14,14] := by
      decide
    have hnodup := h.1
    rw [hstages] at hnodup
    exact absurd hnodup (by decide)

end FastPki.Notify
