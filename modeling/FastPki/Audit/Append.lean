import FastPki.Audit.Chain
import Mathlib.Data.List.Sort

namespace FastPki.Audit
open X509

/-- The rows of `audit_log` that are committed, and the next value of the sequence behind `seq`. -/
structure AuditLog where
  rows : List AuditRow
  nextSeq : Int
  deriving DecidableEq

/-- What the text columns hold of an event: each field is handed over as a C string. -/
def storedEvent (e : AuditEvent) : AuditEvent :=
  ⟨e.ts,cString e.category,cString e.action,cString e.actor,cString e.actorIp,cString e.target,
    cString e.status,cString e.detail⟩

def storedRow (row : AuditRow) : AuditRow :=
  ⟨row.seq,storedEvent row.ev,cString row.prevHash,cString row.hash⟩

/-- `SELECT .. WHERE seq > $1 ORDER BY seq ASC`, with a LIMIT where one is given. -/
def getAudit (log : AuditLog) (afterSeq : Int) (limit : Int) : List AuditRow :=
  let rows := (log.rows.insertionSort fun a b => a.seq ≤ b.seq).filter (·.seq > afterSeq)
  if limit > 0 then rows.take limit.toNat else rows

/-- `SELECT hash FROM audit_log ORDER BY seq DESC LIMIT 1`, or the genesis value. -/
def readHead (log : AuditLog) : Octets :=
  ((log.rows.insertionSort fun a b => b.seq ≤ a.seq).head?).elim auditGenesisHash (·.hash)

/-- An event without a time is stamped with the clock. -/
def stamp (now : Int) (ev : AuditEvent) : AuditEvent := if ev.ts = 0 then { ev with ts := now } else ev

section Append

variable (evpSha256 : Octets → Octets)

/-- The row an attempt inserts: digested from the strings in memory. -/
def newRow (seq : Int) (ev : AuditEvent) (prev : Octets) : AuditRow :=
  ⟨seq,ev,prev,auditEntryHash evpSha256 ev prev⟩

/-- A call in which no statement fails. -/
def appendAudit (now : Int) (log : AuditLog) (ev : AuditEvent) : AuditLog × AuditRow :=
  let row := newRow evpSha256 log.nextSeq (stamp now ev) (readHead log)
  (⟨log.rows++[storedRow row],log.nextSeq+1⟩,row)

end Append

def texts (e : AuditEvent) : List Octets :=
  [e.category,e.action,e.actor,e.actorIp,e.target,e.status,e.detail]

/-- No text field holds a NUL. -/
def NoNul (e : AuditEvent) : Prop := ∀ o∈texts e,0∉o

instance (e : AuditEvent) : Decidable (NoNul e) := inferInstanceAs (Decidable (∀ o∈texts e,0∉o))

theorem storedEvent_eq_self_iff (e : AuditEvent) : storedEvent e=e ↔ NoNul e := by
  obtain ⟨ts,category,action,actor,actorIp,target,status,detail⟩ := e
  simp [storedEvent,NoNul,texts,cString_eq_self_iff]

theorem noNul_stamp (now : Int) (e : AuditEvent) : NoNul (stamp now e) ↔ NoNul e := by
  simp only [stamp]
  split_ifs
  · rfl
  · rfl

theorem zero_notMem_toHex (o : Octets) : 0∉toHex o := by
  have hdigit : ∀ i<16,Hex.digit i≠0 := by decide
  intro hzero
  simp only [toHex,Hex.encode,List.mem_flatMap,List.mem_cons,List.not_mem_nil,or_false] at hzero
  obtain ⟨b,_,hb⟩ := hzero
  have hlt := b.toNat_lt
  obtain hb|hb := hb
  · exact hdigit (b.toNat/16) (by omega) hb.symm
  · exact hdigit (b.toNat%16) (by omega) hb.symm

/-- The digest the next row is linked to. -/
def lastHash (prev : Octets) (rows : List AuditRow) : Octets := rows.getLast?.elim prev (·.hash)

theorem lastHash_cons (prev : Octets) (row : AuditRow) (rows : List AuditRow) :
    lastHash prev (row::rows)=lastHash row.hash rows := by
  rw [lastHash,lastHash,List.getLast?_cons]
  cases rows.getLast? with
  | none => rfl
  | some last => rfl

theorem numbered_concat (seq : Option Int) (rows : List AuditRow) (row : AuditRow) :
    Numbered seq (rows++[row]) ↔ Numbered seq rows ∧
      ∀ n∈rows.getLast?.elim seq (fun last => some (last.seq+1)),row.seq=n := by
  induction rows generalizing seq with
  | nil => simp [Numbered]
  | cons first rows ih =>
    simp only [List.cons_append,Numbered]
    rw [ih,and_assoc,List.getLast?_cons]
    cases rows.getLast? with
    | none => rfl
    | some last => rfl

section Log

variable {evpSha256 : Octets → Octets}

theorem linked_concat (prev : Octets) (rows : List AuditRow) (row : AuditRow) :
    Linked evpSha256 prev (rows++[row]) ↔ Linked evpSha256 prev rows ∧
      row.prevHash=lastHash prev rows ∧
      row.hash=auditEntryHash evpSha256 row.ev (lastHash prev rows) := by
  induction rows generalizing prev with
  | nil => simp [Linked,lastHash]
  | cons first rows ih =>
    simp only [List.cons_append,Linked]
    rw [ih,lastHash_cons,and_assoc,and_assoc]

/-- Rows without a gap ascend. -/
theorem Numbered.ascending {seq : Option Int} {rows : List AuditRow} (h : Numbered seq rows) :
    rows.Pairwise (fun a b => a.seq<b.seq) ∧ ∀ n∈seq,∀ row∈rows,n ≤ row.seq := by
  induction rows generalizing seq with
  | nil => simp
  | cons first rows ih =>
    obtain ⟨hfirst,hrest⟩ := h
    obtain ⟨hpair,hge⟩ := ih hrest
    have habove : ∀ row∈rows,first.seq+1 ≤ row.seq := hge (first.seq+1) rfl
    refine ⟨List.pairwise_cons.mpr ⟨fun row hrow => ?_,hpair⟩,fun n hn row hrow => ?_⟩
    · have hrow := habove row hrow
      omega
    · have hstart := hfirst n hn
      obtain rfl|hrow := List.mem_cons.mp hrow
      · omega
      · have hrow := habove row hrow
        omega

/-- The digest behind the last row holds no NUL, so the C string of it is whole. -/
theorem zero_notMem_lastHash {prev : Octets} {rows : List AuditRow} (hprev : 0∉prev)
    (h : Linked evpSha256 prev rows) : 0∉lastHash prev rows := by
  induction rows generalizing prev with
  | nil => exact hprev
  | cons row rows ih =>
    obtain ⟨_,hhash,hrest⟩ := h
    rw [lastHash_cons]
    refine ih ?_ hrest
    rw [hhash]
    exact zero_notMem_toHex _

/-- Numbers without a gap, all of them drawn from the sequence, which starts at one. -/
structure LogInv (log : AuditLog) : Prop where
  numbered : Numbered none log.rows
  drawn : ∀ row∈log.rows,0 < row.seq ∧ row.seq<log.nextSeq
  start : 0<log.nextSeq

/-- Reading everything gives the rows in the order they were stored. -/
theorem LogInv.getAudit_eq {log : AuditLog} (h : LogInv log) : getAudit log 0 0=log.rows := by
  have hsorted : log.rows.Pairwise (fun a b => a.seq≤b.seq) :=
    h.numbered.ascending.1.imp fun hlt => Int.le_of_lt hlt
  simp only [getAudit,hsorted.insertionSort_eq,lt_self_iff_false,gt_iff_lt,if_false]
  rw [List.filter_eq_self]
  intro row hrow
  simpa using (h.drawn row hrow).1

/-- The last row stored has the greatest number. -/
theorem LogInv.below_last {log : AuditLog} (h : LogInv log) {last row : AuditRow}
    (hlast : log.rows.getLast?=some last) (hrow : row∈log.rows) : row=last ∨ row.seq<last.seq := by
  obtain ⟨rows,hrows⟩ := List.getLast?_eq_some_iff.mp hlast
  have hpair := h.numbered.ascending.1
  rw [hrows,List.pairwise_append] at hpair
  rw [hrows] at hrow
  obtain hin|hin := List.mem_append.mp hrow
  · exact Or.inr (hpair.2.2 row hin last (by simp))
  · exact Or.inl (List.mem_singleton.mp hin)

theorem LogInv.readHead_eq {log : AuditLog} (h : LogInv log) :
    readHead log=lastHash auditGenesisHash log.rows := by
  rw [readHead,lastHash]
  cases hlast : log.rows.getLast? with
  | none =>
    rw [List.getLast?_eq_none_iff.mp hlast]
    rfl
  | some last =>
    have hmem : ∀ row,row∈log.rows.insertionSort (fun a b => b.seq≤a.seq) ↔ row∈log.rows :=
      fun row => List.mem_insertionSort _
    have hdesc : (log.rows.insertionSort fun a b => b.seq≤a.seq).Pairwise (fun a b => b.seq≤a.seq) := by
      have htotal : Std.Total fun a b : AuditRow => b.seq≤a.seq := ⟨fun a b => Int.le_total _ _⟩
      have htrans : IsTrans AuditRow fun a b => b.seq≤a.seq := ⟨fun a b c hab hbc => hbc.trans hab⟩
      exact List.pairwise_insertionSort _ _
    have hlastmem : last∈log.rows := List.mem_of_getLast? hlast
    cases hsort : log.rows.insertionSort (fun a b => b.seq≤a.seq) with
    | nil =>
      have hin := (hmem last).mpr hlastmem
      rw [hsort] at hin
      cases hin
    | cons top rest =>
      -- the first row of the descending order is the one with the greatest number
      rw [hsort] at hmem hdesc
      have hge : last.seq≤top.seq := by
        obtain rfl|hin := List.mem_cons.mp ((hmem last).mpr hlastmem)
        · exact le_refl _
        · exact (List.pairwise_cons.mp hdesc).1 last hin
      obtain rfl|hlt := h.below_last hlast ((hmem top).mp List.mem_cons_self)
      · rfl
      · omega

/-- A row of the next number. Its strings are whole exactly when its event holds no NUL. -/
theorem storedRow_newRow {rows : List AuditRow} (hlink : Linked evpSha256 auditGenesisHash rows)
    (seq : Int) {ev : AuditEvent} (hev : NoNul ev) :
    storedRow (newRow evpSha256 seq ev (lastHash auditGenesisHash rows))=
      newRow evpSha256 seq ev (lastHash auditGenesisHash rows) := by
  have hprev : 0∉lastHash auditGenesisHash rows := zero_notMem_lastHash (by decide) hlink
  have hhash : 0∉auditEntryHash evpSha256 ev (lastHash auditGenesisHash rows) := zero_notMem_toHex _
  simp only [storedRow,newRow]
  rw [(storedEvent_eq_self_iff ev).mpr hev,cString_eq_self_iff.mpr hprev,
    cString_eq_self_iff.mpr hhash]

theorem LogInv.concat {log : AuditLog} (h : LogInv log) {row : AuditRow} {next : Int}
    (hseq : ∀ last∈log.rows.getLast?,row.seq=last.seq+1) (hpos : 0 < row.seq)
    (hnext : row.seq<next) (hgrow : log.nextSeq≤next) : LogInv ⟨log.rows++[row],next⟩ where
  numbered := by
    refine (numbered_concat none log.rows row).mpr ⟨h.numbered,fun n hn => ?_⟩
    cases hlast : log.rows.getLast? with
    | none =>
      rw [hlast] at hn
      cases hn
    | some last =>
      rw [hlast] at hn
      rw [hseq last hlast]
      exact Option.some.inj hn
  drawn := by
    intro r hr
    obtain hr|hr := List.mem_append.mp hr
    · have hdrawn := h.drawn r hr
      exact ⟨hdrawn.1,hdrawn.2.trans_le hgrow⟩
    · rw [List.mem_singleton.mp hr]
      exact ⟨hpos,hnext⟩
  start := h.start.trans_le hgrow

end Log

section RoundTrip

variable (evpSha256 : Octets → Octets)

def emptyLog : AuditLog := ⟨[],1⟩

/-- The log after these events, each with the clock at its call. -/
def appendAll (log : AuditLog) (events : List (AuditEvent × Int)) : AuditLog :=
  events.foldl (fun log e => (appendAudit evpSha256 e.2 log e.1).1) log

/-- No number has been lost: the next one follows the last row. -/
def Next (log : AuditLog) : Prop := ∀ last∈log.rows.getLast?,log.nextSeq=last.seq+1

theorem appendAudit_inv {log : AuditLog} (h : LogInv log) (hnext : Next log) (now : Int)
    (ev : AuditEvent) : LogInv (appendAudit evpSha256 now log ev).1 ∧
      Next (appendAudit evpSha256 now log ev).1 := by
  constructor
  · refine h.concat hnext h.start ?_ ?_
    · simp [storedRow,newRow]
    · simp
  · intro last hlast
    simp only [appendAudit,List.getLast?_append,List.getLast?_singleton,Option.some_or,
      Option.mem_def,Option.some.injEq] at hlast
    rw [← hlast]
    rfl

variable {evpSha256} in
theorem appendAudit_linked {log : AuditLog} (h : LogInv log)
    (hlink : Linked evpSha256 auditGenesisHash log.rows) (now : Int) {ev : AuditEvent}
    (hev : NoNul ev) : Linked evpSha256 auditGenesisHash (appendAudit evpSha256 now log ev).1.rows := by
  simp only [appendAudit,h.readHead_eq]
  rw [storedRow_newRow hlink _ ((noNul_stamp now ev).mpr hev),linked_concat]
  exact ⟨hlink,rfl,rfl⟩

/-- The events that are in the log: the old ones and what the columns hold of the new ones. -/
theorem appendAll_rows {log : AuditLog} (h : LogInv log) (hnext : Next log)
    (events : List (AuditEvent × Int)) :
    LogInv (appendAll evpSha256 log events) ∧ (appendAll evpSha256 log events).rows.map AuditRow.ev=
      log.rows.map AuditRow.ev++events.map fun e => storedEvent (stamp e.2 e.1) := by
  induction events generalizing log with
  | nil => simp [appendAll,h]
  | cons e events ih =>
    obtain ⟨h1,hnext1⟩ := appendAudit_inv evpSha256 h hnext e.2 e.1
    obtain ⟨hinv,hmap⟩ := ih h1 hnext1
    refine ⟨hinv,hmap.trans ?_⟩
    simp [appendAudit,storedRow,newRow]

variable {evpSha256} in
theorem appendAll_linked {log : AuditLog} (h : LogInv log) (hnext : Next log)
    (hlink : Linked evpSha256 auditGenesisHash log.rows) (events : List (AuditEvent × Int))
    (hev : ∀ e∈events,NoNul e.1) :
    Linked evpSha256 auditGenesisHash (appendAll evpSha256 log events).rows := by
  induction events generalizing log with
  | nil => exact hlink
  | cons e events ih =>
    obtain ⟨h1,hnext1⟩ := appendAudit_inv evpSha256 h hnext e.2 e.1
    have hlink1 := appendAudit_linked h hlink e.2 (hev e List.mem_cons_self)
    exact ih h1 hnext1 hlink1 fun d hd => hev d (List.mem_cons_of_mem _ hd)

end RoundTrip

/-- Events appended and read back pass the verification and are the events that were appended,
exactly when no text field holds a NUL. -/
theorem audit_round_trip_iff (evpSha256 : Octets → Octets) (events : List (AuditEvent × Int)) :
    let rows := getAudit (appendAll evpSha256 emptyLog events) 0 0
    ((verifyAuditChain evpSha256 rows).ok=true ∧
      rows.map AuditRow.ev=events.map fun e => stamp e.2 e.1) ↔ ∀ e∈events,NoNul e.1 := by
  intro rows
  have hempty : LogInv emptyLog := ⟨trivial,by simp [emptyLog],by decide⟩
  have hnext : Next emptyLog := by simp [Next,emptyLog]
  obtain ⟨hinv,hmap⟩ := appendAll_rows evpSha256 hempty hnext events
  have hrows : rows=(appendAll evpSha256 emptyLog events).rows := hinv.getAudit_eq
  have hread : rows.map AuditRow.ev=events.map fun e => storedEvent (stamp e.2 e.1) := by
    rw [hrows,hmap]
    rfl
  have hsame : rows.map AuditRow.ev=events.map (fun e => stamp e.2 e.1) ↔ ∀ e∈events,NoNul e.1 := by
    rw [hread,List.map_inj_left]
    simp only [storedEvent_eq_self_iff,noNul_stamp]
  constructor
  · intro h
    exact hsame.mp h.2
  · intro hev
    refine ⟨?_,hsame.mpr hev⟩
    rw [verifyAuditChain_ok_iff,hrows]
    exact ⟨hinv.numbered,appendAll_linked hempty hnext trivial events hev⟩

/-- A login under the name `ali` NUL `ce`. -/
def nulEvent : AuditEvent :=
  ⟨1700000000,octets "auth",octets "login",octets "ali"++0::octets "ce",octets "192.0.2.1",[],
    octets "failure",[]⟩

def nulDigest : Octets :=
  [0xae,0xc7,0x95,0x33,0x2b,0xba,0x27,0x85,0x28,0x2b,0x43,0xc5,0xf7,0x04,0x28,0xcd,
    0x09,0x20,0xc9,0x0a,0xbc,0x6c,0x82,0x24,0x00,0x97,0x89,0x95,0xb5,0x03,0x33,0x93]

def cutDigest : Octets :=
  [0xed,0xb7,0x6b,0x86,0xed,0xac,0x55,0x0b,0xff,0xdc,0x11,0xed,0x7f,0x6e,0x1b,0xd4,
    0x55,0xc0,0x1d,0xd2,0xc6,0x10,0xef,0xfb,0x47,0xe1,0x3a,0xad,0x78,0x94,0x8e,0xbf]

/-- SHA-256 on the event as it was hashed and on the event as it is read back. -/
def nulSha256 (data : Octets) : Octets :=
  if data = canonical nulEvent++auditGenesisHash then nulDigest
  else if data = canonical (storedEvent nulEvent)++auditGenesisHash then cutDigest
  else []

/-- The row holds `ali` and the digest of the whole name. -/
theorem audit_round_trip_breaks :
    let rows := getAudit (appendAll nulSha256 emptyLog [(nulEvent,0)]) 0 0
    (verifyAuditChain nulSha256 rows).reason="content tampered: recomputed hash != stored hash" ∧
    ¬((verifyAuditChain nulSha256 rows).ok=true ∧ rows.map AuditRow.ev=[stamp 0 nulEvent]) := by
  decide +kernel

end FastPki.Audit
