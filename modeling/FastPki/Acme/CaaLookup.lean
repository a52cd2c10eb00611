import FastPki.Auth.Subject

namespace FastPki.Acme.Caa

open X509 Auth

structure CaaRecord where
  critical : Bool
  tag : Octets
  value : Octets
  deriving DecidableEq

/-- No records and no answer are opposite results. -/
inductive CaaLookup where
  | kRecords (out : List CaaRecord)
  | kEmpty
  | kFailed
  deriving DecidableEq

section Wire

def octetAt (msg : Octets) (pos : Nat) : UInt8 := msg.getD pos 0

def wordAt (msg : Octets) (pos : Nat) : Nat :=
  (octetAt msg pos).toNat*256+(octetAt msg (pos+1)).toNat

/-- The loop over the labels of a name, up to the first that has no length on the wire. -/
def encodeLabels : List Octets → Octets
  | [] => []
  | l::labels =>
    if l.length = 0 ∨ l.length > 63 then []
    else UInt8.ofNat l.length::l++encodeLabels labels

def dnsEncodeName (name : Octets) : Octets := encodeLabels (name.splitOn 0x2e)++[0]

/-- The query for CAA at `name`: type 257, class 1. -/
def caaQuery (id : UInt8 × UInt8) (name : Octets) : Octets :=
  [id.1,id.2,0x01,0x00,0,1,0,0,0,0,0,0]++dnsEncodeName name++[1,1,0,1]

/-- What follows a name, which a pointer may end; `left` octets of the current label are still to
be passed. -/
def dnsSkipName : Nat → Octets → Option Octets
  | _,[] => none
  | left+1,_::msg => dnsSkipName left msg
  | 0,b::msg =>
    if b &&& 0xc0 = 0xc0 then (if msg = [] then none else some (msg.drop 1))
    else if b = 0 then some msg
    else dnsSkipName b.toNat msg

def dnsReplyIsOurs (buf q : Octets) (id : UInt8 × UInt8) : Bool :=
  if buf.length < 12 ∨ q.length < 12 then false
  else if octetAt buf 0 ≠ id.1 ∨ octetAt buf 1 ≠ id.2 then false
  else if octetAt buf 2 &&& 0x80 = 0 then false
  else if wordAt buf 4 ≠ 1 then false
  else if buf.length < q.length then false
  else (q.drop 12).map asciiLower = ((buf.drop 12).take (q.length-12)).map asciiLower

structure ResourceRecord where
  type : Nat
  rdata : Octets
  deriving DecidableEq

/-- One record of the answer and what follows it. -/
def readRecord (msg : Octets) : Option (ResourceRecord × Octets) := do
  let msg ← dnsSkipName 0 msg
  if msg.length < 10 then none
  else
    let body := msg.drop 10
    if body.length < wordAt msg 8 then none
    else some (⟨wordAt msg 0,body.take (wordAt msg 8)⟩,body.drop (wordAt msg 8))

def caaType : Nat := 257

/-- RDATA of a CAA record: flags, the length of the tag, the tag and the value. -/
def decodeCaa (rdata : Octets) : Option CaaRecord :=
  if rdata.length < 2 then none
  else
    let taglen := (octetAt rdata 1).toNat
    if 2+taglen > rdata.length then none
    else some ⟨octetAt rdata 0 &&& 0x80 ≠ 0,((rdata.drop 2).take taglen).map asciiLower,
      rdata.drop (2+taglen)⟩

def skipQuestions : Nat → Octets → Option Octets
  | 0,msg => some msg
  | n+1,msg => (dnsSkipName 0 msg).bind fun msg => skipQuestions n (msg.drop 4)

/-- The loop over the answers. A CAA record that does not decode adds nothing. -/
def readAnswers : Nat → Octets → List CaaRecord → Option (List CaaRecord)
  | 0,_,out => some out
  | n+1,msg,out =>
    match readRecord msg with
    | none => none
    | some (rr,msg) =>
      if rr.type = caaType then
        match decodeCaa rr.rdata with
        | some r => readAnswers n msg (out++[r])
        | none => readAnswers n msg out
      else readAnswers n msg out

def rcode (buf : Octets) : Nat := (octetAt buf 3 &&& 0x0f).toNat

def truncated (buf : Octets) : Bool := octetAt buf 2 &&& 0x02 ≠ 0

/-- `id` is what `RAND_bytes` gave, if anything, and `reply` the datagram that came, if any. -/
def queryCaa (id : Option (UInt8 × UInt8)) (name : Octets) (reply : Option Octets) : CaaLookup :=
  match id,reply with
  | some id,some buf =>
    if buf.length < 12 then .kFailed
    else if !dnsReplyIsOurs buf (caaQuery id name) id then .kFailed
    else if rcode buf = 3 then .kEmpty
    else if rcode buf ≠ 0 then .kFailed
    else if truncated buf then .kFailed
    else
      match (skipQuestions (wordAt buf 4) (buf.drop 12)).bind fun msg =>
          readAnswers (wordAt buf 6) msg [] with
      | none => .kFailed
      | some [] => .kEmpty
      | some (r::out) => .kRecords (r::out)
  | _,_ => .kFailed

end Wire

section Held

/-- The answer records that can be read one after the other, and whether they are all. -/
def recordsFrom : Nat → Octets → List ResourceRecord × Bool
  | 0,_ => ([],true)
  | n+1,msg =>
    match readRecord msg with
    | none => ([],false)
    | some (rr,msg) =>
      let rest := recordsFrom n msg
      (rr::rest.1,rest.2)

def held (buf : Octets) : List ResourceRecord × Bool :=
  match skipQuestions (wordAt buf 4) (buf.drop 12) with
  | none => ([],false)
  | some msg => recordsFrom (wordAt buf 6) msg

/-- The announced records of the reply can all be read. -/
def complete (buf : Octets) : Bool := (held buf).2

def caaRecords (buf : Octets) : List ResourceRecord := (held buf).1.filter (·.type = caaType)

/-- What the result of a lookup may say about the reply it was read from. -/
structure Honest (buf : Octets) (result : CaaLookup) : Prop where
  empty : result=.kEmpty → rcode buf=3 ∨
    (rcode buf=0 ∧ truncated buf=false ∧ complete buf=true ∧ caaRecords buf=[])
  undecodable : (∃ rr∈caaRecords buf,decodeCaa rr.rdata=none) → result=.kFailed
  records : ∀ out,result=.kRecords out →
    complete buf=true ∧ out.map some=(caaRecords buf).map fun rr => decodeCaa rr.rdata

/-- The reply is no answer for a reason that has nothing to do with its CAA records. -/
def NoAnswer (buf : Octets) : Prop :=
  (rcode buf≠3 ∧ rcode buf≠0) ∨ (rcode buf=0 ∧ (truncated buf=true ∨ complete buf=false))

theorem readAnswers_eq (n : Nat) (msg : Octets) (out : List CaaRecord) :
    readAnswers n msg out=
      if (recordsFrom n msg).2 then
        some (out++((recordsFrom n msg).1.filter (·.type = caaType)).filterMap
          fun rr => decodeCaa rr.rdata)
      else none := by
  induction n generalizing msg out with
  | zero => simp [readAnswers,recordsFrom]
  | succ n ih =>
    rw [readAnswers,recordsFrom]
    cases readRecord msg with
    | none => rfl
    | some parts =>
      obtain ⟨rr,msg⟩ := parts
      dsimp only
      by_cases htype : rr.type=caaType
      · rw [if_pos htype]
        cases hdec : decodeCaa rr.rdata with
        | none => simp [ih,htype,hdec]
        | some r => simp [ih,htype,hdec]
      · simp [ih,htype]

theorem skipQuestions_readAnswers (buf : Octets) :
    ((skipQuestions (wordAt buf 4) (buf.drop 12)).bind fun msg =>
        readAnswers (wordAt buf 6) msg [])=
      if complete buf then some ((caaRecords buf).filterMap fun rr => decodeCaa rr.rdata)
      else none := by
  rw [complete,caaRecords,held]
  cases skipQuestions (wordAt buf 4) (buf.drop 12) with
  | none => rfl
  | some msg => exact readAnswers_eq (wordAt buf 6) msg []

end Held

section Query

variable {id : UInt8 × UInt8} {name buf : Octets}

theorem length_of_ours {q : Octets} (h : dnsReplyIsOurs buf q id=true) : ¬buf.length<12 := by
  intro hlen
  rw [dnsReplyIsOurs,if_pos (Or.inl hlen)] at h
  cases h

theorem queryCaa_ours (h : dnsReplyIsOurs buf (caaQuery id name) id=true) :
    queryCaa (some id) name (some buf)=
      if rcode buf = 3 then .kEmpty
      else if rcode buf ≠ 0 then .kFailed
      else if truncated buf then .kFailed
      else if !complete buf then .kFailed
      else match (caaRecords buf).filterMap fun rr => decodeCaa rr.rdata with
        | [] => .kEmpty
        | r::out => .kRecords (r::out) := by
  rw [queryCaa,if_neg (length_of_ours h),h,skipQuestions_readAnswers]
  cases complete buf with
  | false => rfl
  | true =>
    simp only [Bool.not_true,Bool.false_eq_true,if_false,if_true]
    cases (caaRecords buf).filterMap fun rr => decodeCaa rr.rdata with
    | nil => rfl
    | cons r out => rfl

theorem queryCaa_noAnswer (h : dnsReplyIsOurs buf (caaQuery id name) id=true)
    (hno : NoAnswer buf) : queryCaa (some id) name (some buf)=.kFailed := by
  rw [queryCaa_ours h]
  rcases hno with ⟨h3,h0⟩|⟨h0,htrunc|hpart⟩
  · rw [if_neg h3,if_pos h0]
  · simp [h0,htrunc]
  · simp [h0,hpart]

/-- The result for an answer in full. -/
theorem queryCaa_answer (h : dnsReplyIsOurs buf (caaQuery id name) id=true)
    (hyes : ¬NoAnswer buf) (h3 : rcode buf≠3) : rcode buf=0 ∧ truncated buf=false ∧
      complete buf=true ∧ queryCaa (some id) name (some buf)=
        match (caaRecords buf).filterMap fun rr => decodeCaa rr.rdata with
        | [] => .kEmpty
        | r::out => .kRecords (r::out) := by
  have h0 : rcode buf=0 := by
    by_contra h0
    exact hyes (Or.inl ⟨h3,h0⟩)
  have htrunc : truncated buf=false := by
    rw [Bool.eq_false_iff]
    exact fun ht => hyes (Or.inr ⟨h0,Or.inl ht⟩)
  have hall : complete buf=true := by
    rw [← Bool.not_eq_false]
    exact fun hc => hyes (Or.inr ⟨h0,Or.inr hc⟩)
  refine ⟨h0,htrunc,hall,?_⟩
  rw [queryCaa_ours h]
  simp [h0,htrunc,hall]

theorem queryCaa_ne_failed (h : dnsReplyIsOurs buf (caaQuery id name) id=true)
    (hyes : ¬NoAnswer buf) : queryCaa (some id) name (some buf)≠.kFailed := by
  intro hq
  by_cases h3 : rcode buf=3
  · rw [queryCaa_ours h,if_pos h3] at hq
    cases hq
  · rw [(queryCaa_answer h hyes h3).2.2.2] at hq
    split at hq
    all_goals cases hq

theorem map_some_filterMap {α β : Type*} {f : α → Option β} {l : List α}
    (h : ∀ x∈l,(f x).isSome=true) : (l.filterMap f).map some=l.map f := by
  induction l with
  | nil => rfl
  | cons x l ih =>
    obtain ⟨y,hy⟩ := Option.isSome_iff_exists.mp (h x List.mem_cons_self)
    rw [List.filterMap_cons_some hy,List.map_cons,List.map_cons,hy,
      ih fun z hz => h z (List.mem_cons_of_mem _ hz)]

/-- With every CAA record decoded the result says what the reply holds. -/
theorem honest_of_decodable (h : dnsReplyIsOurs buf (caaQuery id name) id=true)
    (hyes : ¬NoAnswer buf) (hdec : ∀ rr∈caaRecords buf,(decodeCaa rr.rdata).isSome=true) :
    Honest buf (queryCaa (some id) name (some buf)) := by
  have hnone : ¬∃ rr∈caaRecords buf,decodeCaa rr.rdata=none := by
    rintro ⟨rr,hrr,hn⟩
    have hsome := hdec rr hrr
    rw [hn] at hsome
    cases hsome
  by_cases h3 : rcode buf=3
  · rw [queryCaa_ours h,if_pos h3]
    refine ⟨fun _ => Or.inl h3,fun h => absurd h hnone,fun out h => ?_⟩
    cases h
  obtain ⟨h0,htrunc,hall,hq⟩ := queryCaa_answer h hyes h3
  have hmap := map_some_filterMap hdec
  rw [hq]
  refine ⟨fun hempty => Or.inr ⟨h0,htrunc,hall,?_⟩,fun h => absurd h hnone,
    fun out hout => ⟨hall,?_⟩⟩
  · split at hempty
    · next hnil =>
      rw [hnil] at hmap
      exact List.map_eq_nil_iff.mp hmap.symm
    · cases hempty
  · split at hout
    · cases hout
    · next r rest hcons =>
      obtain rfl := CaaLookup.kRecords.inj hout
      rw [← hcons]
      exact hmap

end Query

/-- A reply is read for what it says unless it holds a CAA record that does not decode: that one is
passed over, and NXDOMAIN is taken without a look at the records. -/
theorem caa_reply_honest_iff (id : UInt8 × UInt8) (name buf : Octets)
    (hours : dnsReplyIsOurs buf (caaQuery id name) id=true) :
    Honest buf (queryCaa (some id) name (some buf)) ↔
      NoAnswer buf ∨ ∀ rr∈caaRecords buf,(decodeCaa rr.rdata).isSome=true := by
  by_cases hno : NoAnswer buf
  · rw [queryCaa_noAnswer hours hno]
    refine iff_of_true ⟨fun h => ?_,fun _ => rfl,fun out h => ?_⟩ (Or.inl hno)
    · cases h
    · cases h
  constructor
  · intro hh
    refine Or.inr fun rr hrr => ?_
    by_contra hdec
    have hbad : ∃ rr∈caaRecords buf,decodeCaa rr.rdata=none :=
      ⟨rr,hrr,Option.not_isSome_iff_eq_none.mp hdec⟩
    exact queryCaa_ne_failed hours hno (hh.undecodable hbad)
  · rintro (h|hdec)
    · exact absurd h hno
    · exact honest_of_decodable hours hno hdec

/-- A reply about `a` with one CAA record: its RDATA is given. -/
def oneRecordReply (rdata : Octets) : Octets :=
  [0x12,0x34,0x81,0x80,0,1,0,1,0,0,0,0]++[1,0x61,0,1,1,0,1]++
    [0xc0,0x0c,1,1,0,1,0,0,0,60,0,UInt8.ofNat rdata.length]++rdata

theorem caa_issue_reply_honest :
    Honest (oneRecordReply ([0,5]++octets "issueca.example"))
      (queryCaa (some (0x12,0x34)) (octets "a")
        (some (oneRecordReply ([0,5]++octets "issueca.example")))) ↔
      NoAnswer (oneRecordReply ([0,5]++octets "issueca.example")) ∨
        ∀ rr∈caaRecords (oneRecordReply ([0,5]++octets "issueca.example")),
          (decodeCaa rr.rdata).isSome=true :=
  caa_reply_honest_iff (0x12,0x34) (octets "a") _ (by decide)

theorem caa_short_record_is_no_policy :
    dnsReplyIsOurs (oneRecordReply [0x80]) (caaQuery (0x12,0x34) (octets "a")) (0x12,0x34)=true ∧
    caaRecords (oneRecordReply [0x80])=[⟨caaType,[0x80]⟩] ∧ decodeCaa [0x80]=none ∧
    queryCaa (some (0x12,0x34)) (octets "a") (some (oneRecordReply [0x80]))=.kEmpty ∧
    ¬Honest (oneRecordReply [0x80])
      (queryCaa (some (0x12,0x34)) (octets "a") (some (oneRecordReply [0x80]))) := by
  have hheld : caaRecords (oneRecordReply [0x80])=[⟨caaType,[0x80]⟩] := by decide
  have hempty : queryCaa (some (0x12,0x34)) (octets "a") (some (oneRecordReply [0x80]))=.kEmpty := by
    decide
  refine ⟨by decide,hheld,by decide,hempty,fun hh => ?_⟩
  have hfailed := hh.undecodable ⟨⟨caaType,[0x80]⟩,by rw [hheld]; exact List.mem_cons_self,
    by decide⟩
  rw [hempty] at hfailed
  cases hfailed

end FastPki.Acme.Caa
