import FastPki.Framework.Digest
import FastPki.Framework.Hex
import FastPki.X509.Name

namespace FastPki.Audit
open X509

structure AuditEvent where
  ts : Int
  category : Octets
  action : Octets
  actor : Octets
  actorIp : Octets
  target : Octets
  status : Octets
  detail : Octets
  deriving DecidableEq

structure AuditRow where
  seq : Int
  ev : AuditEvent
  prevHash : Octets
  hash : Octets
  deriving DecidableEq

def appendField (out v : Octets) : Octets := out++octets (toString v.length)++[0x3a]++v

def canonical (e : AuditEvent) : Octets :=
  let c := appendField [] (octets (toString e.ts))
  let c := appendField c e.category
  let c := appendField c e.action
  let c := appendField c e.actor
  let c := appendField c e.actorIp
  let c := appendField c e.target
  let c := appendField c e.status
  appendField c e.detail

/-- Sixty-four zeros. -/
def auditGenesisHash : Octets := List.replicate 64 0x30

structure AuditVerifyResult where
  ok : Bool
  brokenSeq : Int
  reason : String
  count : Nat
  headHash : Octets
  deriving DecidableEq

/-- Two lower-case digits for each octet. -/
def toHex (o : Octets) : Octets := Hex.encode o

section Verify

-- `EVP_Digest` with `EVP_sha256()`
variable (evpSha256 : Octets → Octets)

def sha256Hex (data : Octets) : Octets := toHex (evpSha256 data)

def auditEntryHash (ev : AuditEvent) (prevHash : Octets) : Octets :=
  sha256Hex evpSha256 (canonical ev++prevHash)

/-- The loop of `verify_audit_chain`; no number is expected before the first row. -/
def verifyRows (r : AuditVerifyResult) (expectedPrev : Octets) (expectedSeq : Option Int) :
    List AuditRow → AuditVerifyResult
  | [] => { r with headHash := expectedPrev }
  | row::rows =>
    let expected := expectedSeq.getD row.seq
    if row.seq ≠ expected then
      { r with
        ok := false
        brokenSeq := row.seq
        reason := "sequence gap: expected seq "++toString expected++" got "++toString row.seq }
    else if row.prevHash ≠ expectedPrev then
      { r with
        ok := false
        brokenSeq := row.seq
        reason := "broken link: prev_hash does not match previous entry" }
    else if auditEntryHash evpSha256 row.ev row.prevHash ≠ row.hash then
      { r with
        ok := false
        brokenSeq := row.seq
        reason := "content tampered: recomputed hash != stored hash" }
    else verifyRows r row.hash (some (expected+1)) rows

def verifyAuditChain (rows : List AuditRow) : AuditVerifyResult :=
  verifyRows evpSha256 ⟨true,0,"",rows.length,[]⟩ auditGenesisHash none rows

/-- The rows link up from this head on, each with the digest of its own event. -/
def Linked (prev : Octets) : List AuditRow → Prop
  | [] => True
  | row::rows => row.prevHash=prev ∧ row.hash=auditEntryHash evpSha256 row.ev prev ∧
    Linked row.hash rows

/-- The rows are numbered on without a gap; the first row sets the start. -/
def Numbered (seq : Option Int) : List AuditRow → Prop
  | [] => True
  | row::rows => (∀ n∈seq,row.seq=n) ∧ Numbered (some (row.seq+1)) rows

end Verify

variable {evpSha256 : Octets → Octets}

theorem verifyRows_ok_iff (r : AuditVerifyResult) (hr : r.ok=true) (prev : Octets)
    (seq : Option Int) (rows : List AuditRow) :
    (verifyRows evpSha256 r prev seq rows).ok=true ↔ Numbered seq rows ∧ Linked evpSha256 prev rows := by
  induction rows generalizing prev seq with
  | nil => simp [verifyRows,Numbered,Linked,hr]
  | cons row rows ih =>
    have hseq : row.seq=seq.getD row.seq ↔ ∀ n∈seq,row.seq=n := by
      cases seq with
      | none => simp
      | some n => simp
    simp only [verifyRows,Numbered,Linked]
    split_ifs with hgap hlink hhash
    · simp only [false_iff]
      intro h
      exact hgap (hseq.mpr h.1.1)
    · simp only [false_iff]
      intro h
      exact hlink h.2.1
    · simp only [false_iff]
      intro h
      rw [← h.2.1] at h
      exact hhash h.2.2.1.symm
    · rw [not_not] at hgap hlink hhash
      rw [ih,← hgap]
      have hfirst : ∀ n∈seq,row.seq=n := hseq.mp hgap
      constructor
      · intro h
        exact ⟨⟨hfirst,h.1⟩,hlink,by rw [← hhash,hlink],h.2⟩
      · intro h
        exact ⟨h.1.2,h.2.2.2⟩

/-- A chain passes exactly when its numbers have no gap and its digests link up. -/
theorem verifyAuditChain_ok_iff (rows : List AuditRow) :
    (verifyAuditChain evpSha256 rows).ok=true ↔
      Numbered none rows ∧ Linked evpSha256 auditGenesisHash rows :=
  verifyRows_ok_iff _ rfl _ _ rows

variable (evpSha256) in
/-- The digest of the next event over a head. -/
def link (head : Octets) (ev : AuditEvent) : Octets := auditEntryHash evpSha256 ev head

theorem verifyRows_headHash (r : AuditVerifyResult) (prev : Octets) (seq : Option Int)
    (rows : List AuditRow) (hnum : Numbered seq rows) (hlink : Linked evpSha256 prev rows) :
    (verifyRows evpSha256 r prev seq rows).headHash=
      chainHead (link evpSha256) prev (rows.map AuditRow.ev) := by
  induction rows generalizing prev seq with
  | nil => rfl
  | cons row rows ih =>
    obtain ⟨hseq,hnum⟩ := hnum
    obtain ⟨hprev,hhash,hlink⟩ := hlink
    have hexpected : seq.getD row.seq=row.seq := by
      cases seq with
      | none => rfl
      | some n => exact (hseq n rfl).symm
    simp only [verifyRows,hexpected,hprev,← hhash,ne_eq,not_true_eq_false,if_false]
    rw [ih row.hash (some (row.seq+1)) hnum hlink,hhash]
    rfl

/-- The head of a chain that passes is the one its events alone determine. -/
theorem headHash_of_ok {rows : List AuditRow} (h : (verifyAuditChain evpSha256 rows).ok=true) :
    (verifyAuditChain evpSha256 rows).headHash=
      chainHead (link evpSha256) auditGenesisHash (rows.map AuditRow.ev) := by
  obtain ⟨hnum,hlink⟩ := (verifyAuditChain_ok_iff rows).mp h
  exact verifyRows_headHash _ _ _ rows hnum hlink

/-- The fields of an event in the order of its canonical form. -/
def fields (e : AuditEvent) : List Octets :=
  [octets (toString e.ts),e.category,e.action,e.actor,e.actorIp,e.target,e.status,e.detail]

theorem canonical_eq (e : AuditEvent) : canonical e=netstrings (fields e) := by
  simp [canonical,fields,netstrings,netstring,appendField,decimal,octets]

theorem fields_injective {d e : AuditEvent} (h : fields d=fields e) : d=e := by
  obtain ⟨ts,_,_,_,_,_,_,_⟩ := d
  obtain ⟨ts',_,_,_,_,_,_,_⟩ := e
  simp only [fields,List.cons.injEq,and_true] at h
  obtain ⟨hts,rfl,rfl,rfl,rfl,rfl,rfl,rfl⟩ := h
  have hts' : ts=ts' := Int.repr_injective (toUTF8_injective hts)
  rw [hts']

/-- An event and the digest behind it are read back from what is digested, though nothing stands
between them. -/
theorem canonical_append_inj {d e : AuditEvent} {x y : Octets} (h : canonical d++x=canonical e++y) :
    d=e ∧ x=y := by
  rw [canonical_eq,canonical_eq] at h
  have hlen : (fields d).length=(fields e).length := rfl
  obtain ⟨hfields,hrest⟩ := netstrings_append_inj hlen h
  exact ⟨fields_injective hfields,hrest⟩

/-- Two chains that pass and end in the same head hold the same events in the same order; so a
chain with other events fails or has another head. -/
theorem audit_tamper_evident (evpSha256 : Octets → Octets)
    (hinj : Function.Injective (sha256Hex evpSha256))
    (hgenesis : ∀ data,sha256Hex evpSha256 data≠auditGenesisHash) (a b : List AuditRow)
    (ha : (verifyAuditChain evpSha256 a).ok=true) :
    ((verifyAuditChain evpSha256 b).ok=true →
      (verifyAuditChain evpSha256 a).headHash=(verifyAuditChain evpSha256 b).headHash →
        a.map AuditRow.ev=b.map AuditRow.ev) ∧
    (b.map AuditRow.ev≠a.map AuditRow.ev → (verifyAuditChain evpSha256 b).ok=false ∨
      (verifyAuditChain evpSha256 b).headHash≠(verifyAuditChain evpSha256 a).headHash) := by
  have hlink : ∀ g h d e,link evpSha256 g d=link evpSha256 h e → g=h ∧ d=e := by
    intro g h d e heq
    obtain ⟨hev,hhead⟩ := canonical_append_inj (hinj heq)
    exact ⟨hhead,hev⟩
  have hsame : (verifyAuditChain evpSha256 b).ok=true →
      (verifyAuditChain evpSha256 a).headHash=(verifyAuditChain evpSha256 b).headHash →
        a.map AuditRow.ev=b.map AuditRow.ev := by
    intro hb hhead
    rw [headHash_of_ok ha,headHash_of_ok hb] at hhead
    exact chainHead_injective hlink (fun h e => hgenesis _) hhead
  refine ⟨hsame,fun hne => ?_⟩
  by_cases hb : (verifyAuditChain evpSha256 b).ok=true
  · right
    intro hhead
    exact hne (hsame hb hhead.symm).symm
  · left
    simpa using hb

section Example

def loginEvent : AuditEvent :=
  ⟨1700000000,octets "auth",octets "login",octets "alice",octets "192.0.2.1",[],octets "success",[]⟩

def deleteEvent (actor : String) : AuditEvent :=
  ⟨1700000060,octets "config",octets "user_delete",octets actor,octets "192.0.2.1",octets "bob",
    octets "success",[]⟩

def loginDigest : Octets :=
  [0x3f,0xfc,0xc1,0xca,0xff,0x85,0x08,0x03,0x55,0x6c,0x77,0x46,0xb0,0x8a,0x9a,0x84,
    0x4c,0x41,0x09,0x82,0xa1,0x7a,0x19,0x83,0xe4,0xc4,0xe7,0x6a,0xbd,0x26,0xe6,0xd0]

def aliceDigest : Octets :=
  [0xf1,0x3d,0x29,0x99,0x7b,0x5e,0x50,0x79,0xbc,0x88,0xce,0xda,0x32,0xcc,0xb0,0xa1,
    0x21,0x4b,0xaa,0x2f,0x7d,0x79,0x80,0x2b,0xa8,0x54,0x36,0x8a,0xae,0x50,0x2c,0x92]

def carolDigest : Octets :=
  [0x6f,0xc4,0x5b,0xc6,0x92,0xba,0xaf,0x5b,0x05,0xc6,0x0d,0xe3,0x15,0x85,0xf4,0x8d,
    0xc0,0x71,0xba,0x34,0x56,0x48,0xe6,0xf7,0xdd,0x20,0x9f,0x16,0x7b,0x05,0x3d,0x2e]

/-- SHA-256 on the three texts below; any other text stands for its own digest. -/
def sampleSha256 (data : Octets) : Octets :=
  if data = canonical loginEvent++auditGenesisHash then loginDigest
  else if data = canonical (deleteEvent "alice")++toHex loginDigest then aliceDigest
  else if data = canonical (deleteEvent "carol")++toHex loginDigest then carolDigest
  else 0x67::data

theorem toHex_injective : Function.Injective toHex := by
  intro a b h
  have hread := congrArg Hex.decode h
  rw [toHex,toHex,Hex.decode_encode,Hex.decode_encode] at hread
  exact Option.some.inj hread

theorem sampleSha256_injective : Function.Injective sampleSha256 := by
  intro a b h
  have hhead : ∀ o∈[loginDigest,aliceDigest,carolDigest],o.head?≠some 0x67 := by decide
  have hother : ∀ o∈[loginDigest,aliceDigest,carolDigest],∀ d,0x67::d≠o := by
    intro o ho d heq
    exact hhead o ho (heq ▸ rfl)
  simp only [List.forall_mem_cons] at hother
  obtain ⟨hlogin,halice,hcarol,_⟩ := hother
  have hla : loginDigest≠aliceDigest := by decide
  have hlc : loginDigest≠carolDigest := by decide
  have hac : aliceDigest≠carolDigest := by decide
  simp only [sampleSha256] at h
  split_ifs at h <;> simp_all [eq_comm]

theorem sampleSha256_ne_genesis (data : Octets) :
    sha256Hex sampleSha256 data≠auditGenesisHash := by
  simp only [sha256Hex,sampleSha256]
  split_ifs
  · decide
  · decide
  · decide
  · intro h
    have hhead := congrArg List.head? h
    cases hhead

def loginRow : AuditRow := ⟨1,loginEvent,auditGenesisHash,toHex loginDigest⟩

/-- The log as it was written, and the log with the actor of its second event edited and the
digests linked anew. -/
def honestLog : List AuditRow :=
  [loginRow,⟨2,deleteEvent "alice",toHex loginDigest,toHex aliceDigest⟩]

def editedLog : List AuditRow :=
  [loginRow,⟨2,deleteEvent "carol",toHex loginDigest,toHex carolDigest⟩]

theorem audit_tamper_evident_edited :
    (verifyAuditChain sampleSha256 honestLog).ok=true ∧
    (verifyAuditChain sampleSha256 editedLog).ok=true ∧
    (verifyAuditChain sampleSha256 editedLog).headHash≠
      (verifyAuditChain sampleSha256 honestLog).headHash := by
  have hhonest : (verifyAuditChain sampleSha256 honestLog).ok=true := by decide +kernel
  have hedited : (verifyAuditChain sampleSha256 editedLog).ok=true := by decide +kernel
  refine ⟨hhonest,hedited,?_⟩
  obtain hfail|hhead := (audit_tamper_evident sampleSha256
    (toHex_injective.comp sampleSha256_injective) sampleSha256_ne_genesis honestLog editedLog hhonest).2 (by decide)
  · rw [hedited] at hfail
    cases hfail
  · exact hhead

end Example

end FastPki.Audit
