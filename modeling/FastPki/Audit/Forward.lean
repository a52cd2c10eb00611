import FastPki.Audit.Append
import FastPki.Framework.Decimal
import FastPki.Framework.Run
import FastPki.Framework.Watermark

namespace FastPki.Audit
open X509

/-! The log shipped to a collector, from where the last pass left off. -/

/-- A message on a stream, behind its length. -/
def octetFramed (msg : Octets) : Octets := decimal msg.length++0x20::msg

/-- One pass of `fastpki-audit forward`. Where `--after` is given, or the messages are only printed,
the stored mark is neither read nor written. -/
structure Pass where
  key : Octets
  hec : Bool
  toStdout : Bool
  overridden : Bool
  start : Int
  batch : Int
  rows : Option (List AuditRow)

/-- The log, how far it was shipped to each destination, the passes under way, and for each
destination the rows that a call reported as sent and those that were handed to a call at all. What
the network then makes of a message (a datagram may be lost) is not part of it. -/
structure Shipping where
  log : AuditLog
  marks : Octets → Int
  passes : Nat → Option Pass
  sent : Octets → List AuditRow
  offered : Octets → List AuditRow

def kBatch (configured : Int) : Int := if configured > 0 then configured else 500

/-- One message a row, until a call fails or the process ends. -/
def shipRows : List AuditRow → List Bool → List AuditRow
  | r::rows,true::oks => r::shipRows rows oks
  | _,_ => []

/-- The rows that are reported as sent. A batch goes in one request to an HTTP collector. -/
def taken (p : Pass) (rows : List AuditRow) (oks : List Bool) : List AuditRow :=
  if p.toStdout then []
  else if p.hec then if oks.head? = some true then rows else []
  else shipRows rows oks

/-- What was handed to the call that failed. -/
def strays (p : Pass) (rows : List AuditRow) (oks : List Bool) : List AuditRow :=
  if p.toStdout then []
  else if p.hec then rows else (rows.drop (shipRows rows oks).length).take 1

/-- The mark only moves forward. -/
def setAuditForwardMark (marks : Octets → Int) (key : Octets) (seq : Int) : Octets → Int :=
  Function.update marks key (max (marks key) seq)

/-- `append` is a row of any process, and `gap` a number that one drew in vain; the others are the
steps of a pass, of which several may be under way. A process may end between them, and then starts
again. -/
inductive Event where
  | append (now : Int) (ev : AuditEvent)
  | gap
  | start (p : Nat) (key : Octets) (hec toStdout : Bool) (after : Option Int) (configured : Int)
  | fetch (p : Nat)
  | finish (p : Nat) (oks : List Bool) (recorded : Bool)

section Code

/-- The mark follows the last row that was reported as sent. -/
def recordPass (marks : Octets → Int) (pass : Pass) (sent : List AuditRow) (recorded : Bool) :
    Octets → Int :=
  match sent.getLast? with
  | none => marks
  | some last =>
    if (pass.hec ∨ last.seq ≠ 0) ∧ pass.overridden = false ∧ recorded = true then
      setAuditForwardMark marks pass.key last.seq
    else marks

/-- These rows go on the record of a destination. -/
def noted (record : Octets → List AuditRow) (key : Octets) (rows : List AuditRow) :
    Octets → List AuditRow :=
  Function.update record key (record key++rows)

def finishPass (s : Shipping) (pass : Pass) (rows : List AuditRow) (oks : List Bool)
    (recorded : Bool) : Shipping :=
  let sent := taken pass rows oks
  { s with
    marks := recordPass s.marks pass sent recorded
    sent := noted s.sent pass.key sent
    offered := noted s.offered pass.key (sent++strays pass rows oks) }

variable (evpSha256 : Octets → Octets)

def forwardStep (s : Shipping) : Event → Shipping
  | .append now ev => { s with log := (appendAudit evpSha256 now s.log ev).1 }
  | .gap => { s with log := ⟨s.log.rows,s.log.nextSeq+1⟩ }
  | .start p key hec toStdout after configured =>
    let overridden := after.isSome || toStdout
    let start := if overridden then after.getD 0 else s.marks key
    let pass : Pass := ⟨key,hec,toStdout,overridden,start,kBatch configured,none⟩
    { s with passes := Function.update s.passes p (some pass) }
  | .fetch p =>
    match s.passes p with
    | none => s
    | some pass =>
      let rows := getAudit s.log pass.start pass.batch
      { s with passes := Function.update s.passes p (some { pass with rows := some rows }) }
  | .finish p oks recorded =>
    match s.passes p with
    | none => s
    | some pass =>
      match pass.rows with
      | none => s
      | some rows =>
        finishPass { s with passes := Function.update s.passes p none } pass rows oks recorded

end Code

section Framing

theorem space_notMem_decimal (n : Nat) : 0x20∉decimal n := fun h =>
  absurd ((Decimal.decimal_spec n).2.2 0x20 h) (by decide)

/-- A length ends at the first space. -/
theorem decimal_append_inj {m n : Nat} {x y : Octets} (h : decimal m++0x20::x=decimal n++0x20::y) :
    m=n ∧ x=y := by
  have hread : ∀ k z,(decimal k++0x20::z).takeWhile (· ≠ 0x20)=decimal k := by
    intro k z
    rw [List.takeWhile_append_of_pos fun c hc => by
      simpa using fun heq : c=0x20 => space_notMem_decimal k (heq ▸ hc)]
    simp
  have hdigits : decimal m=decimal n := by rw [← hread m x,h,hread n y]
  have hvalue : m=n := by
    rw [← (Decimal.decimal_spec m).1,hdigits,(Decimal.decimal_spec n).1]
  rw [hdigits,List.append_cancel_left_eq,List.cons.injEq] at h
  exact ⟨hvalue,h.2⟩

/-- The messages can be told apart in the stream that carries them, whatever they hold. -/
theorem syslog_stream_injective :
    Function.Injective fun msgs : List Octets => msgs.flatMap octetFramed := by
  intro ms
  induction ms with
  | nil =>
    intro ns h
    cases ns with
    | nil => rfl
    | cons n ns => simp [octetFramed] at h
  | cons m ms ih =>
    intro ns h
    cases ns with
    | nil => simp [octetFramed] at h
    | cons n ns =>
      simp only [List.flatMap_cons,octetFramed,List.append_assoc,List.cons_append] at h
      obtain ⟨hlen,hrest⟩ := decimal_append_inj h
      obtain ⟨rfl,htail⟩ := List.append_inj hrest hlen
      rw [ih htail]

end Framing

section Marks

/-- Rows ascend, with numbers that were drawn. -/
structure Drawn (log : AuditLog) : Prop where
  ascending : log.rows.Pairwise fun a b => a.seq < b.seq
  drawn : ∀ row∈log.rows,0 < row.seq ∧ row.seq < log.nextSeq
  start : 0 < log.nextSeq

theorem Drawn.getAudit_batch {log : AuditLog} (h : Drawn log) (start : Int) {n : Int} (hn : 0 < n) :
    getAudit log start n=(log.rows.filter fun r => start < r.seq).take n.toNat ∧
      Batch AuditRow.seq log.rows start (getAudit log start n) := by
  have hsorted : log.rows.Pairwise (fun a b => a.seq ≤ b.seq) :=
    h.ascending.imp fun hlt => Int.le_of_lt hlt
  have hrows : getAudit log start n=(log.rows.filter fun r => start < r.seq).take n.toNat := by
    simp only [getAudit,hsorted.insertionSort_eq,gt_iff_lt,hn,if_true]
  rw [hrows]
  exact ⟨rfl,batch_take_filter h.ascending start n.toNat⟩

theorem kBatch_pos (configured : Int) : 0 < kBatch configured := by
  rw [kBatch]
  split_ifs with h
  · exact h
  · decide

theorem shipRows_prefix (rows : List AuditRow) (oks : List Bool) : shipRows rows oks<+:rows := by
  induction rows generalizing oks with
  | nil => cases oks <;> exact List.prefix_rfl
  | cons r rows ih =>
    cases oks with
    | nil => exact List.nil_prefix
    | cons ok oks =>
      cases ok with
      | false => exact List.nil_prefix
      | true => exact List.cons_prefix_cons.mpr ⟨rfl,ih oks⟩

theorem taken_prefix (p : Pass) (rows : List AuditRow) (oks : List Bool) : taken p rows oks<+:rows := by
  rw [taken]
  split_ifs
  · exact List.nil_prefix
  · exact List.prefix_rfl
  · exact List.nil_prefix
  · exact shipRows_prefix rows oks

theorem mem_of_mem_strays {p : Pass} {rows : List AuditRow} {oks : List Bool} {r : AuditRow}
    (h : r∈strays p rows oks) : r∈rows := by
  rw [strays] at h
  split_ifs at h
  · cases h
  · exact h
  · exact List.mem_of_mem_drop (List.mem_of_mem_take h)

/-- A pass under way: what is before its start was sent, and it has read what is behind it. -/
structure PassInv (log : AuditLog) (sent : Octets → List AuditRow) (pass : Pass) : Prop where
  start : pass.overridden=false → pass.start < log.nextSeq ∧
    Covered AuditRow.seq log.rows (sent pass.key) pass.start
  batch : 0 < pass.batch
  rows : ∀ rows,pass.rows=some rows → Batch AuditRow.seq log.rows pass.start rows

structure ShippingInv (s : Shipping) : Prop where
  log : Drawn s.log
  marks : ∀ key,s.marks key < s.log.nextSeq
  covered : ∀ key,Covered AuditRow.seq s.log.rows (s.sent key) (s.marks key)
  handed : ∀ key,∀ row∈s.sent key,row∈s.offered key
  sound : ∀ key,∀ row∈s.offered key,row∈s.log.rows
  passes : ∀ p pass,s.passes p=some pass → PassInv s.log s.sent pass

variable {evpSha256 : Octets → Octets} {s : Shipping}

/-- The log grows by one row. -/
theorem ShippingInv.push (h : ShippingInv s) {row : AuditRow} (hrow : row.seq=s.log.nextSeq) :
    ShippingInv { s with log := ⟨s.log.rows++[row],s.log.nextSeq+1⟩ } := by
  have habove : ∀ q∈s.log.rows,q.seq < row.seq := fun q hq => hrow ▸ (h.log.drawn q hq).2
  have hstart := h.log.start
  refine ⟨⟨?_,?_,?_⟩,fun key => ?_,fun key => ?_,h.handed,fun key q hq => ?_,fun p pass hp => ?_⟩
  · refine List.pairwise_append.mpr ⟨h.log.ascending,List.pairwise_singleton _ _,fun q hq r hr => ?_⟩
    rw [List.mem_singleton.mp hr]
    exact habove q hq
  · intro q hq
    obtain hq|hq := List.mem_append.mp hq
    · have hdrawn := h.log.drawn q hq
      exact ⟨hdrawn.1,by show q.seq < s.log.nextSeq+1; omega⟩
    · rw [List.mem_singleton.mp hq]
      exact ⟨by omega,by show row.seq < s.log.nextSeq+1; omega⟩
  · show 0 < s.log.nextSeq+1
    omega
  · have hmark := h.marks key
    show s.marks key < s.log.nextSeq+1
    omega
  · exact (h.covered key).push (by rw [hrow]; exact h.marks key)
  · exact List.mem_append_left _ (h.sound key q hq)
  · obtain ⟨hcover,hbatch,hrows⟩ := h.passes p pass hp
    refine ⟨fun hover => ?_,hbatch,fun rows heq => (hrows rows heq).push habove⟩
    obtain ⟨hlt,hcovered⟩ := hcover hover
    refine ⟨?_,hcovered.push (by rw [hrow]; exact hlt)⟩
    show pass.start < s.log.nextSeq+1
    omega

theorem ShippingInv.gap (h : ShippingInv s) :
    ShippingInv { s with log := ⟨s.log.rows,s.log.nextSeq+1⟩ } := by
  have hstart := h.log.start
  have hnext : ∀ n : Int,n < s.log.nextSeq → n < s.log.nextSeq+1 := fun n hn => by omega
  refine ⟨⟨h.log.ascending,fun q hq => ?_,hnext 0 hstart⟩,fun key => hnext _ (h.marks key),h.covered,
    h.handed,h.sound,fun p pass hp => ?_⟩
  · exact ⟨(h.log.drawn q hq).1,hnext _ (h.log.drawn q hq).2⟩
  · obtain ⟨hcover,hbatch,hrows⟩ := h.passes p pass hp
    exact ⟨fun hover => ⟨hnext _ (hcover hover).1,(hcover hover).2⟩,hbatch,hrows⟩

/-- What the steps of a pass leave as it is: the log, the marks and what was sent. -/
theorem ShippingInv.update (h : ShippingInv s) (p : Nat) {pass : Option Pass}
    (hpass : ∀ q,pass=some q → PassInv s.log s.sent q) :
    ShippingInv { s with passes := Function.update s.passes p pass } := by
  refine ⟨h.log,h.marks,h.covered,h.handed,h.sound,fun q other hq => ?_⟩
  simp only at hq
  by_cases heq : q=p
  · subst heq
    rw [Function.update_self] at hq
    exact hpass other hq
  · rw [Function.update_of_ne heq] at hq
    exact h.passes q other hq

theorem mem_noted {record : Octets → List AuditRow} {key k : Octets} {rows : List AuditRow}
    {r : AuditRow} : r∈noted record key rows k ↔ r∈record k ∨ (k=key ∧ r∈rows) := by
  rw [noted]
  by_cases hk : k=key
  · subst hk
    simp
  · simp [hk]

/-- More of the log is sent, and perhaps a row whose call fails. -/
theorem ShippingInv.send (h : ShippingInv s) (key : Octets) {rows more : List AuditRow}
    (hrows : ∀ r∈rows,r∈s.log.rows) (hmore : ∀ r∈more,r∈s.log.rows) :
    ShippingInv { s with
      sent := noted s.sent key rows
      offered := noted s.offered key (rows++more) } := by
  have hkept : ∀ k,∀ r∈s.sent k,r∈noted s.sent key rows k := fun k r hr => mem_noted.mpr (Or.inl hr)
  refine ⟨h.log,h.marks,fun k => (h.covered k).more (hkept k),fun k r hr => ?_,fun k r hr => ?_,
    fun p pass hp => ?_⟩
  · obtain hr|⟨hk,hr⟩ := mem_noted.mp hr
    · exact mem_noted.mpr (Or.inl (h.handed k r hr))
    · exact mem_noted.mpr (Or.inr ⟨hk,List.mem_append_left _ hr⟩)
  · obtain hr|⟨-,hr⟩ := mem_noted.mp hr
    · exact h.sound k r hr
    · exact (List.mem_append.mp hr).elim (hrows r) (hmore r)
  · obtain ⟨hcover,hbatch,hread⟩ := h.passes p pass hp
    exact ⟨fun hover => ⟨(hcover hover).1,(hcover hover).2.more (hkept pass.key)⟩,hbatch,hread⟩

theorem ShippingInv.mark (h : ShippingInv s) {key : Octets} {last : AuditRow}
    (hlast : last∈s.log.rows)
    (hcovered : Covered AuditRow.seq s.log.rows (s.sent key) last.seq) :
    ShippingInv { s with marks := setAuditForwardMark s.marks key last.seq } := by
  refine ⟨h.log,fun k => ?_,fun k => ?_,h.handed,h.sound,h.passes⟩
  · simp only [setAuditForwardMark]
    by_cases hk : k=key
    · subst hk
      rw [Function.update_self]
      exact max_lt (h.marks k) (h.log.drawn last hlast).2
    · rw [Function.update_of_ne hk]
      exact h.marks k
  · simp only [setAuditForwardMark]
    by_cases hk : k=key
    · subst hk
      rw [Function.update_self]
      exact (h.covered k).max hcovered
    · rw [Function.update_of_ne hk]
      exact h.covered k

theorem finishPass_inv (h : ShippingInv s) {pass : Pass} (hpass : PassInv s.log s.sent pass)
    {rows : List AuditRow} (hrows : pass.rows=some rows) (oks : List Bool) (recorded : Bool) :
    ShippingInv (finishPass s pass rows oks recorded) := by
  have hbatch := hpass.rows rows hrows
  obtain ⟨rest,hrest⟩ := taken_prefix pass rows oks
  have hfailed : ∀ r∈strays pass rows oks,r∈s.log.rows :=
    fun r hr => (hbatch.sound r (mem_of_mem_strays hr)).1
  rw [finishPass]
  set sent := taken pass rows oks
  have hsent : ∀ r∈sent,r∈s.log.rows := by
    intro r hr
    refine (hbatch.sound r ?_).1
    rw [← hrest]
    exact List.mem_append_left _ hr
  have hnoted := h.send pass.key hsent hfailed
  simp only [recordPass]
  cases hlast : sent.getLast? with
  | none => exact hnoted
  | some last =>
    simp only
    split_ifs with hrecord
    · obtain ⟨-,hover,-⟩ := hrecord
      obtain ⟨first,hfirst⟩ := List.getLast?_eq_some_iff.mp hlast
      have hsplit : rows=first++last::rest := by
        rw [← hrest,hfirst]
        simp
      refine hnoted.mark (hsent last (by simp [hfirst])) ?_
      refine Covered.advance ?_ hbatch hsplit fun r hr => ?_
      · exact (hpass.start hover).2.more fun r hr => mem_noted.mpr (Or.inl hr)
      · rw [← hfirst] at hr
        exact mem_noted.mpr (Or.inr ⟨rfl,hr⟩)
    · exact hnoted

theorem forwardStep_inv (h : ShippingInv s) (e : Event) :
    ShippingInv (forwardStep evpSha256 s e) := by
  cases e with
  | append now ev => exact h.push rfl
  | gap => exact h.gap
  | start p key hec toStdout after configured =>
    refine h.update p fun pass hpass => ?_
    cases hpass
    refine ⟨fun hover => ?_,kBatch_pos configured,nofun⟩
    simp only at hover
    simp only [hover,Bool.false_eq_true,if_false]
    exact ⟨h.marks key,h.covered key⟩
  | fetch p =>
    simp only [forwardStep]
    cases hp : s.passes p with
    | none => exact h
    | some pass =>
      obtain ⟨hstart,hbatch,-⟩ := h.passes p pass hp
      refine h.update p fun q hq => ?_
      cases hq
      refine ⟨hstart,hbatch,fun rows hrows => ?_⟩
      cases hrows
      exact (h.log.getAudit_batch pass.start hbatch).2
  | finish p oks recorded =>
    simp only [forwardStep]
    cases hp : s.passes p with
    | none => exact h
    | some pass =>
      simp only
      cases hrows : pass.rows with
      | none => exact h
      | some rows => exact finishPass_inv (h.update p fun _ hq => by cases hq) (h.passes p pass hp) hrows _ _

/-- Before the first pass nothing is marked. -/
theorem shippingInv_start {log : AuditLog} (h : Drawn log) :
    ShippingInv ⟨log,fun _ => 0,fun _ => none,fun _ => [],fun _ => []⟩ where
  log := h
  marks _ := h.start
  covered _ row hrow hle := absurd (h.drawn row hrow).1 (not_lt.mpr hle)
  handed _ _ hrow := by cases hrow
  sound _ _ hrow := by cases hrow
  passes _ _ hp := by cases hp

theorem shippingInv_run (h : ShippingInv s) (es : List Event) :
    ShippingInv (run (forwardStep evpSha256) s es) :=
  run_invariant (I := ShippingInv) (fun _ e hs => forwardStep_inv hs e) h es

theorem le_recordPass (marks : Octets → Int) (pass : Pass) (sent : List AuditRow) (recorded : Bool)
    (key : Octets) : marks key ≤ recordPass marks pass sent recorded key := by
  rw [recordPass]
  cases sent.getLast? with
  | none => exact le_rfl
  | some last =>
    simp only
    split_ifs
    · rw [setAuditForwardMark]
      by_cases hk : key=pass.key
      · rw [hk,Function.update_self]
        exact le_max_left _ _
      · rw [Function.update_of_ne hk]
    · exact le_rfl

theorem marks_forwardStep (s : Shipping) (e : Event) (key : Octets) :
    s.marks key ≤ (forwardStep evpSha256 s e).marks key := by
  cases e with
  | append now ev => exact le_rfl
  | gap => exact le_rfl
  | start p key hec toStdout after configured => exact le_rfl
  | fetch p =>
    simp only [forwardStep]
    split
    · exact le_rfl
    · exact le_rfl
  | finish p oks recorded =>
    simp only [forwardStep]
    split
    · exact le_rfl
    split
    · exact le_rfl
    · exact le_recordPass s.marks _ _ recorded key

theorem marks_run (s : Shipping) (es : List Event) (key : Octets) :
    s.marks key ≤ (run (forwardStep evpSha256) s es).marks key := by
  induction es generalizing s with
  | nil => exact le_rfl
  | cons e es ih => exact le_trans (marks_forwardStep s e key) (ih _)

/-- However passes, appended rows, calls that fail half way and processes that end are interleaved:
all of the log up to the mark of a destination was reported as sent there, nothing but rows of the
log was handed to a call, and the mark never goes back. -/
theorem audit_forward_no_loss (evpSha256 : Octets → Octets) (log : AuditLog) (hlog : Drawn log)
    (es es' : List Event) (key : Octets) :
    let s := run (forwardStep evpSha256) ⟨log,fun _ => 0,fun _ => none,fun _ => [],fun _ => []⟩ es
    (∀ row∈s.log.rows,row.seq ≤ s.marks key → row∈s.sent key) ∧
    (∀ row∈s.sent key,row∈s.offered key) ∧ (∀ row∈s.offered key,row∈s.log.rows) ∧
    s.marks key ≤ (run (forwardStep evpSha256) s es').marks key := by
  intro s
  have hinv : ShippingInv s := shippingInv_run (shippingInv_start hlog) es
  exact ⟨hinv.covered key,hinv.handed key,hinv.sound key,marks_run s es' key⟩

/-- Two rows, of which one is sent before a call fails. -/
theorem audit_forward_no_loss_half :
    let ev : AuditEvent := ⟨1,[],[],[],[],[],[],[]⟩
    let s := run (forwardStep fun _ => []) ⟨⟨[],1⟩,fun _ => 0,fun _ => none,fun _ => [],fun _ => []⟩
      [.append 0 ev,.append 0 ev,.start 0 [] false false none 0,.fetch 0,
        .finish 0 [true,false] true]
    s.marks []=1 ∧ ∀ row∈s.log.rows,row.seq ≤ 1 → row∈s.sent [] := by
  intro ev s
  have hmark : s.marks []=1 := by decide +kernel
  have hspec := audit_forward_no_loss (fun _ => []) ⟨[],1⟩ ⟨List.Pairwise.nil,nofun,by decide⟩
    [.append 0 ev,.append 0 ev,.start 0 [] false false none 0,.fetch 0,
      .finish 0 [true,false] true] [] []
  exact ⟨hmark,hmark ▸ hspec.1⟩

end Marks

section Drain

/-- A pass of the shipper in which everything goes well. -/
def cleanPass (p : Nat) (key : Octets) (hec : Bool) (configured : Int) : List Event :=
  [.start p key hec false none configured,.fetch p,
    .finish p (List.replicate (kBatch configured).toNat true) true]

/-- What is still to be shipped. -/
def behind (s : Shipping) (key : Octets) : List AuditRow :=
  s.log.rows.filter fun r => s.marks key < r.seq

variable (evpSha256 : Octets → Octets) {s : Shipping}

theorem shipRows_replicate {rows : List AuditRow} {n : Nat} (h : rows.length ≤ n) :
    shipRows rows (List.replicate n true)=rows := by
  induction rows generalizing n with
  | nil => cases n <;> rfl
  | cons r rows ih =>
    cases n with
    | zero => exact absurd h (Nat.not_succ_le_zero _)
    | succ n => rw [List.replicate_succ,shipRows,ih (Nat.le_of_succ_le_succ h)]

/-- It ships the next rows, and marks the last of them. -/
theorem run_cleanPass (h : ShippingInv s) (p : Nat) (key : Octets) (hec : Bool) (configured : Int) :
    let t := run (forwardStep evpSha256) s (cleanPass p key hec configured)
    let rows := (behind s key).take (kBatch configured).toNat
    t.log=s.log ∧ t.sent key=s.sent key++rows ∧
      t.marks key=rows.getLast?.elim (s.marks key) fun last => max (s.marks key) last.seq := by
  intro t rows
  have hbatch := kBatch_pos configured
  have hrows : getAudit s.log (s.marks key) (kBatch configured)=rows :=
    (h.log.getAudit_batch (s.marks key) hbatch).1
  have hlen : rows.length ≤ (kBatch configured).toNat := by
    rw [List.length_take]
    exact Nat.min_le_left _ _
  have htaken : taken ⟨key,hec,false,false,s.marks key,kBatch configured,some rows⟩ rows
      (List.replicate (kBatch configured).toNat true)=rows := by
    rw [taken]
    have hhead : (List.replicate (kBatch configured).toNat true).head?=some true := by
      rw [List.head?_replicate,if_neg (by omega)]
    simp only [Bool.false_eq_true,if_false,hhead,if_true]
    cases hec with
    | true => rfl
    | false => exact shipRows_replicate hlen
  have ht : t=finishPass { s with passes := Function.update (Function.update (Function.update s.passes p
        (some ⟨key,hec,false,false,s.marks key,kBatch configured,none⟩)) p
        (some ⟨key,hec,false,false,s.marks key,kBatch configured,some rows⟩)) p none }
      ⟨key,hec,false,false,s.marks key,kBatch configured,some rows⟩ rows
      (List.replicate (kBatch configured).toNat true) true := by
    simp only [t,cleanPass,run_cons,run_nil,forwardStep,Option.isSome_none,Bool.or_self,
      Bool.false_eq_true,if_false,Function.update_self,hrows]
  rw [ht,finishPass]
  simp only [htaken,noted,Function.update_self,true_and]
  rw [recordPass]
  cases hlast : rows.getLast? with
  | none => rfl
  | some last =>
    have hmem : last∈s.log.rows :=
      List.mem_of_mem_filter (List.mem_of_mem_take (List.mem_of_getLast? hlast))
    have hpos := (h.log.drawn last hmem).1
    simp only
    rw [if_pos ⟨Or.inr (by omega),trivial,trivial⟩,setAuditForwardMark,Function.update_self]
    rfl

/-- Each such pass leaves less to be shipped. -/
theorem length_behind_cleanPass (h : ShippingInv s) (p : Nat) (key : Octets) (hec : Bool)
    (configured : Int) (hne : behind s key≠[]) :
    (behind (run (forwardStep evpSha256) s (cleanPass p key hec configured)) key).length <
      (behind s key).length := by
  obtain ⟨hlog,-,hmark⟩ := run_cleanPass evpSha256 h p key hec configured
  set t := run (forwardStep evpSha256) s (cleanPass p key hec configured) with ht
  set rows := (behind s key).take (kBatch configured).toNat with hrows
  have hbatch := kBatch_pos configured
  have hrowsne : rows≠[] := by
    rw [hrows,ne_eq,List.take_eq_nil_iff]
    exact not_or.mpr ⟨by omega,hne⟩
  set last := rows.getLast hrowsne with hlast
  have hmem : last∈behind s key := List.mem_of_mem_take (List.getLast_mem hrowsne)
  rw [List.getLast?_eq_some_getLast hrowsne,Option.elim_some] at hmark
  have hsub : behind t key=(behind s key).filter fun r => t.marks key < r.seq := by
    rw [behind,behind,hlog,List.filter_filter]
    refine List.filter_congr fun r _ => ?_
    have hle : s.marks key ≤ t.marks key := hmark ▸ le_max_left _ _
    by_cases hr : t.marks key < r.seq
    · simp [hr,lt_of_le_of_lt hle hr]
    · simp [hr]
  rw [hsub]
  refine List.length_filter_lt_length_iff_exists.mpr ⟨last,hmem,?_⟩
  have hge : last.seq ≤ t.marks key := hmark ▸ le_max_right _ _
  simpa using hge

theorem sent_of_cleanPasses (h : ShippingInv s) (p : Nat) (key : Octets) (hec : Bool)
    (configured : Int) {k : Nat} (hk : (behind s key).length ≤ k) :
    let t := run (forwardStep evpSha256) s (List.replicate k (cleanPass p key hec configured)).flatten
    ∀ row∈s.log.rows,row∈t.sent key := by
  -- each pass ships at least one row, so that the rows to be shipped bound the passes
  induction k generalizing s with
  | zero =>
    intro t row hrow
    refine h.covered key row hrow ?_
    by_contra hlt
    have hmem : row∈behind s key := List.mem_filter.mpr ⟨hrow,by simpa using hlt⟩
    rw [List.length_eq_zero_iff.mp (Nat.le_zero.mp hk)] at hmem
    cases hmem
  | succ k ih =>
    intro t row hrow
    set s1 := run (forwardStep evpSha256) s (cleanPass p key hec configured) with hs1
    have hinv : ShippingInv s1 := shippingInv_run h _
    obtain ⟨hlog,-,-⟩ := run_cleanPass evpSha256 h p key hec configured
    have hless : (behind s1 key).length ≤ k := by
      by_cases hne : behind s key=[]
      · have hnil : behind s1 key=[] := by
          rw [behind,List.filter_eq_nil_iff]
          intro r hr
          have hle : s.marks key ≤ s1.marks key := marks_run s _ key
          have hold := List.filter_eq_nil_iff.mp hne r (hlog ▸ hr)
          simp only [decide_eq_true_eq,not_lt] at hold ⊢
          exact hold.trans hle
        rw [hnil]
        exact Nat.zero_le k
      · have hlt := length_behind_cleanPass evpSha256 h p key hec configured hne
        exact Nat.le_of_lt_succ (lt_of_lt_of_le hlt hk)
    have hrest := ih hinv hless row (hlog ▸ hrow)
    simp only [t,List.replicate_succ,List.flatten_cons,run_append]
    exact hrest

/-- Whatever happened before, the log is sent once calls succeed again: after as many such passes as
the log has rows, there is none that was not reported as sent. -/
theorem audit_forward_drains (evpSha256 : Octets → Octets) (log : AuditLog) (hlog : Drawn log)
    (es : List Event) (p : Nat) (key : Octets) (hec : Bool) (configured : Int) :
    let s := run (forwardStep evpSha256) ⟨log,fun _ => 0,fun _ => none,fun _ => [],fun _ => []⟩ es
    let t := run (forwardStep evpSha256) s
      (List.replicate s.log.rows.length (cleanPass p key hec configured)).flatten
    ∀ row∈s.log.rows,row∈t.sent key := by
  intro s
  have hinv : ShippingInv s := shippingInv_run (shippingInv_start hlog) es
  exact sent_of_cleanPasses evpSha256 hinv p key hec configured (List.length_filter_le _ _)

/-- The row that the collector refused is sent by the next pass. -/
theorem audit_forward_drains_refused :
    let ev : AuditEvent := ⟨1,[],[],[],[],[],[],[]⟩
    let es : List Event := [.append 0 ev,.start 0 [] true false none 0,.fetch 0,
      .finish 0 [false] true]
    let s := run (forwardStep fun _ => []) ⟨⟨[],1⟩,fun _ => 0,fun _ => none,fun _ => [],fun _ => []⟩ es
    let t := run (forwardStep fun _ => []) s (cleanPass 0 [] true 0)
    s.sent []=[] ∧ ∀ row∈s.log.rows,row∈t.sent [] := by
  intro ev es s t
  have hrows : s.log.rows.length=1 := by decide +kernel
  have hspec := audit_forward_drains (fun _ => []) ⟨[],1⟩ ⟨List.Pairwise.nil,nofun,by decide⟩ es 0
    [] true 0
  refine ⟨by decide +kernel,fun row hrow => ?_⟩
  have hgot := hspec row hrow
  rw [hrows,List.replicate_one,List.flatten_singleton] at hgot
  exact hgot

end Drain

end FastPki.Audit
