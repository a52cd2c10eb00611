import FastPki.Framework.Ascii
import FastPki.Smtp.Wire

namespace FastPki.Smtp
open X509

/-- How a call that sending makes fails. -/
inductive ConnError where
  | sending
  | closed
  | longLine
  | notReply (line : Octets)
  | longReply
  | random (why : Octets)
  deriving DecidableEq

/-- The connection in the loop over the messages: what was written for the message at hand and what
`result` holds for it, and how the next calls go. -/
structure Link where
  written : Octets
  result : Octets
  -- of a write that fails, how much of it left
  writes : List (Option Nat)
  lines : List (Except ConnError Octets)
  randoms : List (Except Octets Random)

/-- A call that throws has changed the connection too. -/
abbrev Session := ExceptT ConnError (StateM Link)

structure Sent where
  message : MailMessage
  result : Octets
  written : Octets
  deriving DecidableEq

section Code

/-- Control characters removed, except line feeds. -/
def printable (s : Octets) : Octets :=
  let o := s.map fun c => if c < 0x20 ∧ c ≠ 0x0a then 0x20 else c
  if o.length > 300 then o.take 300++octets "…" else o

def ConnError.what (s : SmtpSettings) : ConnError → Octets
  | sending => octets "SMTP: the connection to "++s.host++octets " failed while sending"
  | closed => octets "SMTP: "++s.host++
      octets " closed the connection or did not answer within "++zeroPadded 1 s.timeoutSec++octets "s"
  | longLine => octets "SMTP: "++s.host++octets " sent a line longer than 16384 bytes"
  | notReply line => octets "SMTP: "++s.host++
      octets " sent something that is not an SMTP reply: '"++printable line++octets "'"
  | longReply => octets "SMTP: "++s.host++octets " sent a reply of more than 512 lines"
  | random why => octets "SMTP: RAND_bytes failed: "++why

def writeAll (data : Octets) : Session Unit := fun k =>
  match k.writes with
  | some n::ws => (.error .sending,{ k with written := k.written++data.take n, writes := ws })
  | none::ws => (.ok (),{ k with written := k.written++data, writes := ws })
  | [] => (.ok (),{ k with written := k.written++data })

def sendLine (line : Octets) : Session Unit := writeAll (line++octets "\r\n")

def readLine : Session Octets := fun k =>
  match k.lines with
  | l::ls => (l,{ k with lines := ls })
  | [] => (.error .closed,k)

def isReplyLine (l : Octets) : Bool :=
  3 ≤ l.length ∧ (l.take 3).all Ascii.isDigit = true ∧
    (l.length = 3 ∨ l[3]? = some 0x20 ∨ l[3]? = some 0x2d)

def replyCode (l : Octets) : Nat := Ascii.value (l.take 3)

def withLine (text l : Octets) : Octets := (if text ≠ [] then text++[0x0a] else text)++l.drop 4

/-- One reply of at most `n` lines more: its code, and the text of every line. -/
def replyFrom : Nat → Octets → Session (Nat × Octets)
  | 0,_ => throw .longReply
  | n+1,text => do
    let l ← readLine
    if isReplyLine l = false then throw (.notReply l)
    else if l.length = 3 ∨ l[3]? = some 0x20 then pure (replyCode l,withLine text l)
    else replyFrom n (withLine text l)

def reply : Session (Nat × Octets) := replyFrom 512 []

def said (r : Nat × Octets) : Octets := zeroPadded 1 r.1++octets " "++printable r.2

def setResult (why : Octets) : Session Unit := fun k => (.ok (),{ k with result := why })

def randomBytes : Session Random := fun k =>
  match k.randoms with
  | .ok r::rs => (.ok r,{ k with randoms := rs })
  | .error why::rs => (.error (.random why),{ k with randoms := rs })
  | [] => (.error (.random []),k)

/-- The reason is kept before the relay is told to start over. -/
def refused (why : Nat × Octets) : Session Unit := do
  setResult (said why)
  sendLine (octets "RSET")
  let _ ← reply

/-- One round of the loop. -/
def deliver (s : SmtpSettings) (now : Int) (m : MailMessage) : Session Unit := do
  if plausibleMailbox m.address = false then setResult (octets "not a usable address")
  else
    sendLine (octets "MAIL FROM:<"++s.sender++octets ">")
    let r ← reply
    if r.1 ≠ 250 then refused r
    else
      sendLine (octets "RCPT TO:<"++m.address++octets ">")
      let r ← reply
      if r.1 ≠ 250 ∧ r.1 ≠ 251 then refused r
      else
        sendLine (octets "DATA")
        let r ← reply
        if r.1 ≠ 354 then refused r
        else
          let rand ← randomBytes
          writeAll (formatMail s m now rand++octets ".\r\n")
          let r ← reply
          if r.1 ≠ 250 then setResult (said r)

/-- The loop of `smtp_send`. When a call throws, the message in flight and those after it are reported
as failed. -/
def sendMessages (s : SmtpSettings) (now : Int) : List MailMessage → Link → List Sent
  | [],_ => []
  | m::ms,k =>
    match deliver s now m { k with written := [], result := [] } with
    | (.ok (),k') => ⟨m,k'.result,k'.written⟩::sendMessages s now ms k'
    | (.error e,k') =>
      ⟨m,if k'.result = [] then e.what s else k'.result,k'.written⟩::
        ms.map fun m' => ⟨m',e.what s,[]⟩

end Code

section Session

variable {α β : Type} {k k' : Link}

/-- A session that returned has returned at each of its steps. -/
theorem bind_returns_iff {x : Session α} {f : α → Session β} {b : β} :
    (x >>= f) k=(.ok b,k') ↔ ∃ a k₁,x k=(.ok a,k₁) ∧ f a k₁=(.ok b,k') := by
  have hbind : (x >>= f) k=ExceptT.bindCont f (x k).1 (x k).2 := rfl
  rw [hbind]
  obtain ⟨r,k₁⟩ := x k
  cases r with
  | ok a =>
    constructor
    · intro h
      exact ⟨a,k₁,rfl,h⟩
    · rintro ⟨a',k₁',heq,h⟩
      cases heq
      exact h
  | error e =>
    constructor
    · intro h
      cases h
    · rintro ⟨a',k₁',heq,h⟩
      cases heq

theorem writeAll_returns {data : Octets} {u : Unit} (h : writeAll data k=(.ok u,k')) :
    k'.written=k.written++data ∧ k'.result=k.result := by
  unfold writeAll at h
  split at h
  · cases h
  · cases h
    exact ⟨rfl,rfl⟩
  · cases h
    exact ⟨rfl,rfl⟩

theorem readLine_keeps {l : Octets} (h : readLine k=(.ok l,k')) :
    k'.written=k.written ∧ k'.result=k.result := by
  unfold readLine at h
  split at h
  · rw [← (Prod.mk.inj h).2]
    exact ⟨rfl,rfl⟩
  · cases h

/-- To read a reply writes nothing. -/
theorem replyFrom_keeps {n : Nat} {text : Octets} {r : Nat × Octets}
    (h : replyFrom n text k=(.ok r,k')) : k'.written=k.written ∧ k'.result=k.result := by
  induction n generalizing text k with
  | zero => cases h
  | succ n ih =>
    rw [replyFrom,bind_returns_iff] at h
    obtain ⟨l,k₁,hread,hrest⟩ := h
    obtain ⟨hwritten,hresult⟩ := readLine_keeps hread
    split_ifs at hrest with hbad hlast
    · cases hrest
    · cases hrest
      exact ⟨hwritten,hresult⟩
    · obtain ⟨hwritten',hresult'⟩ := ih hrest
      exact ⟨hwritten'.trans hwritten,hresult'.trans hresult⟩

theorem reply_keeps {r : Nat × Octets} (h : reply k=(.ok r,k')) :
    k'.written=k.written ∧ k'.result=k.result := replyFrom_keeps h

theorem randomBytes_keeps {rand : Random} (h : randomBytes k=(.ok rand,k')) :
    k'.written=k.written ∧ k'.result=k.result := by
  unfold randomBytes at h
  split at h
  · cases h
    exact ⟨rfl,rfl⟩
  · cases h
  · cases h

theorem said_ne_nil (r : Nat × Octets) : said r≠[] := by
  have hblank : octets " "=[0x20] := by decide
  rw [said,hblank]
  simp

/-- A failure always has a text, so that no message it hit is taken for accepted. -/
theorem ConnError.what_ne_nil (s : SmtpSettings) (x : ConnError) : x.what s≠[] := by
  have htexts : octets "SMTP: the connection to "≠[] ∧ octets "SMTP: "≠[] ∧
      octets "SMTP: RAND_bytes failed: "≠[] := by decide
  cases x with
  | sending => simp [what,htexts]
  | closed => simp [what,htexts]
  | longLine => simp [what,htexts]
  | notReply line => simp [what,htexts]
  | longReply => simp [what,htexts]
  | random why => simp [what,htexts]

/-- A message that the relay refused has its reason, also when the relay is gone after that. -/
theorem refused_returns {why : Nat × Octets} {u : Unit} (h : refused why k=(.ok u,k')) :
    k'.result=said why := by
  rw [refused,bind_returns_iff] at h
  obtain ⟨_,k₁,hset,hrest⟩ := h
  rw [bind_returns_iff] at hrest
  obtain ⟨_,k₂,hsend,hrest⟩ := hrest
  rw [bind_returns_iff] at hrest
  obtain ⟨r,k₃,hreply,hend⟩ := hrest
  cases hset
  cases hend
  rw [(reply_keeps hreply).2,(writeAll_returns hsend).2]

/-- A command and its reply, as far as what is written goes. -/
theorem sendLine_reply {line : Octets} {f : Nat × Octets → Session Unit} {u : Unit}
    (h : (do sendLine line; let r ← reply; f r : Session Unit) k=(.ok u,k')) :
    ∃ r k₁,f r k₁=(.ok u,k') ∧ k₁.written=k.written++(line++crlf) ∧ k₁.result=k.result := by
  have hcrlf : octets "\r\n"=crlf := by decide
  rw [bind_returns_iff] at h
  obtain ⟨_,k₁,hsend,hrest⟩ := h
  rw [bind_returns_iff] at hrest
  obtain ⟨r,k₂,hreply,hrest⟩ := hrest
  obtain ⟨hwritten,hresult⟩ := writeAll_returns hsend
  obtain ⟨hwritten',hresult'⟩ := reply_keeps hreply
  refine ⟨r,k₂,hrest,?_,hresult'.trans hresult⟩
  rw [hwritten',hwritten,hcrlf]

end Session

section Wire

/-- The commands for a message. -/
def commands (s : SmtpSettings) (m : MailMessage) : List Octets :=
  [octets "MAIL FROM:<"++s.sender++octets ">",octets "RCPT TO:<"++m.address++octets ">",octets "DATA"]

/-- What goes over the wire for a message that the relay takes. -/
def wireLines (s : SmtpSettings) (m : MailMessage) (now : Int) (rand : Random) : List Octets :=
  commands s m++(mailLines s m now rand++[[fullStop]])

variable {s : SmtpSettings} {now : Int} {m : MailMessage} {k k' : Link}

/-- A round that leaves no reason behind has written the commands and the message. -/
theorem deliver_accepted {u : Unit} (h : deliver s now m k=(.ok u,k')) (hwritten : k.written=[])
    (hresult : k'.result=[]) :
    plausibleMailbox m.address=true ∧ ∃ rand,k'.written=unlines (wireLines s m now rand) := by
  have hdot : octets ".\r\n"=[fullStop]++crlf := by decide
  have hunusable : octets "not a usable address"≠[] := by decide
  have hnot : ∀ {why : Nat × Octets} {k₁ : Link},refused why k₁≠(.ok u,k') := by
    intro why k₁ href
    exact said_ne_nil why ((refused_returns href).symm.trans hresult)
  unfold deliver at h
  split_ifs at h with haddress
  · cases h
    exact absurd hresult hunusable
  · refine ⟨by simpa using haddress,?_⟩
    obtain ⟨r₁,k₁,h,hw₁,_⟩ := sendLine_reply h
    split_ifs at h with hmail
    · exact absurd h hnot
    obtain ⟨r₂,k₂,h,hw₂,_⟩ := sendLine_reply h
    split_ifs at h with hrcpt
    · exact absurd h hnot
    obtain ⟨r₃,k₃,h,hw₃,_⟩ := sendLine_reply h
    split_ifs at h with hdata
    · exact absurd h hnot
    rw [bind_returns_iff] at h
    obtain ⟨rand,k₄,hrand,h⟩ := h
    rw [bind_returns_iff] at h
    obtain ⟨_,k₅,hsend,h⟩ := h
    rw [bind_returns_iff] at h
    obtain ⟨r₄,k₆,hreply,h⟩ := h
    have hkept : k'.written=k₆.written := by
      split_ifs at h with hlast
      · cases h
        rfl
      · cases h
        rfl
    refine ⟨rand,?_⟩
    rw [hkept,(reply_keeps hreply).1,(writeAll_returns hsend).1,(randomBytes_keeps hrand).1,hw₃,hw₂,
      hw₁,hwritten,formatMail_eq,hdot]
    simp [wireLines,commands,unlines]

theorem sendMessages_accepted {msgs : List MailMessage} {e : Sent} (he : e∈sendMessages s now msgs k)
    (hresult : e.result=[]) :
    plausibleMailbox e.message.address=true ∧
      ∃ rand,e.written=unlines (wireLines s e.message now rand) := by
  induction msgs generalizing k with
  | nil => cases he
  | cons m ms ih =>
    unfold sendMessages at he
    split at he
    · rename_i k₁ hdeliver
      obtain rfl|he := List.mem_cons.mp he
      · exact deliver_accepted hdeliver rfl hresult
      · exact ih he
    · rename_i x k₁ hdeliver
      obtain rfl|he := List.mem_cons.mp he
      · change (if k₁.result=[] then x.what s else k₁.result)=[] at hresult
        split_ifs at hresult with hempty
        · exact absurd hresult (x.what_ne_nil s)
        · exact absurd hresult hempty
      · obtain ⟨m',_,rfl⟩ := List.mem_map.mp he
        exact absurd hresult (x.what_ne_nil s)

/-- There is one entry for each message, in their order. -/
theorem sendMessages_messages (msgs : List MailMessage) :
    (sendMessages s now msgs k).map Sent.message=msgs := by
  induction msgs generalizing k with
  | nil => rfl
  | cons m ms ih =>
    unfold sendMessages
    split
    · rw [List.map_cons,ih]
    · rw [List.map_cons,List.map_map]
      exact congrArg (m::·) (List.map_id ms)

end Wire

section Intended

variable {s : SmtpSettings} {now : Int} {m : MailMessage}

/-- What was written is the commands and one message. A reader finds the fields that are named in it
and no other, the subject on one line and cut to 300 octets, and the body with its line ends as CR
LF. -/
def Intended (s : SmtpSettings) (now : Int) (m : MailMessage) (written : Octets) : Prop :=
  ∃ (lines : List Octets) (rand : Random) (subject : Octets) (body : List Octets),
    readLines written=some (commands s m++(lines++[[fullStop]])) ∧
    (∀ l∈lines,l.length ≤ 998 ∧ l≠[fullStop]) ∧
    readMail lines=
      some ⟨fieldsBefore s m++(octets "Subject",subject)::fieldsAfter s now rand,body⟩ ∧
    CutTo 300 (oneLine m.subject) (decodeText subject) ∧
    base64Decode body.flatten=some (crlfText m.body)

/-- The subject, on one line and cut, is not ASCII or has no encoded word in it, and the base64 of the
body can be counted. -/
def Unambiguous (m : MailMessage) : Prop :=
  (∃ p,CutTo 300 (oneLine m.subject) p ∧
    ((∃ c∈p,0x80 ≤ c) ∨ ∀ w∈pieces p,decodeWord w=none)) ∧
  (crlfText m.body).length ≤ b64Limit

theorem isAscii_eq_false_iff {p : Octets} : isAscii p=false ↔ ∃ c∈p,0x80 ≤ c := by
  simp [isAscii,UInt8.not_lt]

theorem subject_unambiguous_iff (raw : Octets) :
    CutTo 300 (oneLine raw) (decodeText (subjectValue raw)) ↔
      ∃ p,CutTo 300 (oneLine raw) p ∧ ((∃ c∈p,0x80 ≤ c) ∨ ∀ w∈pieces p,decodeWord w=none) := by
  have hcut := subjectText_cut raw
  have hiff := decodeText_subjectWords_iff raw
  rw [isAscii_eq_false_iff] at hiff
  constructor
  · intro h
    exact ⟨subjectText raw,hcut,hiff.mp (h.unique hcut)⟩
  · rintro ⟨p,hp,hcond⟩
    rw [hp.unique hcut] at hcond
    rw [subjectValue,hiff.mpr hcond]
    exact hcut

theorem plainLine_wireLines (hto : plausibleMailbox m.address=true) (rand : Random) :
    ∀ l∈wireLines s m now rand,PlainLine l := by
  have hfixed : ∀ l∈[octets "MAIL FROM:<",octets "RCPT TO:<",octets ">",octets "DATA",[fullStop]],
      ∀ c∈l,c≠0x0d ∧ c≠0x0a := by decide +kernel
  have hmail : PlainLine (octets "MAIL FROM:<") := hfixed _ (by simp)
  have hrcpt : PlainLine (octets "RCPT TO:<") := hfixed _ (by simp)
  have hend : PlainLine (octets ">") := hfixed _ (by simp)
  intro l hl
  simp only [wireLines,commands,List.mem_append,List.mem_cons,List.not_mem_nil,or_false] at hl
  obtain (rfl|rfl|rfl)|hl|rfl := hl
  · simp only [plainLine_append,hmail,hend,plainLine_mailbox s.usable,and_self]
  · simp only [plainLine_append,hrcpt,hend,plainLine_mailbox hto,and_self]
  · exact hfixed _ (by simp)
  · exact (mailLine_mailLines hto hl).plain
  · exact hfixed _ (by simp)

/-- What is written for a message is as intended exactly when the message is unambiguous. -/
theorem intended_wireLines_iff (hto : plausibleMailbox m.address=true) (rand : Random) :
    Intended s now m (unlines (wireLines s m now rand)) ↔ Unambiguous m := by
  have hlines : readLines (unlines (wireLines s m now rand))=some (wireLines s m now rand) :=
    readLines_unlines (plainLine_wireLines hto rand)
  have hmail := readMail_mailLines (s := s) (m := m) now rand
  have hbody := base64Decode_b64_iff (crlfText m.body)
  rw [normaliseBody_eq] at hmail
  constructor
  · rintro ⟨lines,rand',subject,body,hread,_,hparts,hsubject,hdecoded⟩
    rw [hlines] at hread
    have hsame : mailLines s m now rand++[[fullStop]]=lines++[[fullStop]] :=
      List.append_cancel_left (Option.some.inj hread)
    obtain rfl := List.append_cancel_right hsame
    rw [hmail] at hparts
    obtain ⟨hfields,rfl⟩ := Mail.mk.inj (Option.some.inj hparts)
    have hvalue := (List.cons.inj (List.append_cancel_left hfields)).1
    obtain rfl := (Prod.mk.inj hvalue).2
    rw [bodyLines_flatten] at hdecoded
    exact ⟨(subject_unambiguous_iff m.subject).mp hsubject,hbody.mp hdecoded⟩
  · rintro ⟨hsubject,hlength⟩
    refine ⟨mailLines s m now rand,rand,subjectValue m.subject,_,hlines,?_,hmail,
      (subject_unambiguous_iff m.subject).mpr hsubject,?_⟩
    · intro l hl
      have hline := mailLine_mailLines hto hl
      exact ⟨hline.short,hline.noDot⟩
    · rw [bodyLines_flatten]
      exact hbody.mpr hlength

/-- Whatever the relay answers and whatever the messages are: what was written for the messages that
the relay accepted is as intended exactly when these are unambiguous. -/
theorem accepted_mail_intended_iff (s : SmtpSettings) (now : Int) (msgs : List MailMessage)
    (k : Link) :
    (sendMessages s now msgs k).map Sent.message=msgs ∧
    ((∀ e∈sendMessages s now msgs k,e.result=[] → Intended s now e.message e.written) ↔
      ∀ e∈sendMessages s now msgs k,e.result=[] → Unambiguous e.message) := by
  have heach : ∀ e∈sendMessages s now msgs k,e.result=[] →
      (Intended s now e.message e.written ↔ Unambiguous e.message) := by
    intro e he hresult
    obtain ⟨hto,rand,hwritten⟩ := sendMessages_accepted he hresult
    rw [hwritten]
    exact intended_wireLines_iff hto rand
  refine ⟨sendMessages_messages msgs,?_,?_⟩
  · intro h e he hresult
    exact (heach e he hresult).mp (h e he hresult)
  · intro h e he hresult
    exact (heach e he hresult).mpr (h e he hresult)

/-- A subject in ASCII that is an encoded word. -/
def disguised : MailMessage :=
  ⟨octets "alice@example.org",octets "=?UTF-8?B?SGk=?=",octets "Hello\n"⟩

def relaySettings : SmtpSettings :=
  ⟨octets "mail.example.org",octets "pki@example.org",20,by decide +kernel⟩

/-- A relay that takes one message. -/
def takingLink : Link :=
  ⟨[],[],[],[.ok (octets "250 ok"),.ok (octets "250 ok"),.ok (octets "354 go ahead"),
    .ok (octets "250 queued")],[.ok fun _ => 0]⟩

theorem disguised_ambiguous : ¬Unambiguous disguised := by
  have hword : disguised.subject∈pieces disguised.subject := by decide
  have hdecodes : decodeWord disguised.subject≠none := by decide
  have hascii : ∀ c∈disguised.subject,¬0x80 ≤ c := by decide +kernel
  have hline : oneLine disguised.subject=disguised.subject := by decide
  have hshort : disguised.subject.length ≤ 300 := by decide
  rintro ⟨⟨p,hcut,hcond⟩,_⟩
  rw [hline] at hcut
  rw [hcut.whole hshort] at hcond
  obtain ⟨c,hc,hhigh⟩|hplain := hcond
  · exact hascii c hc hhigh
  · exact hdecodes (hplain _ hword)

/-- The relay accepts the message, and its reader is shown another subject. -/
theorem disguised_subject_accepted : ¬∀ (s : SmtpSettings) (now : Int) (msgs : List MailMessage)
    (k : Link),∀ e∈sendMessages s now msgs k,e.result=[] →
      Intended s now e.message e.written := by
  intro h
  have hmessages : (sendMessages relaySettings 0 [disguised] takingLink).map Sent.message=
      [disguised] := sendMessages_messages _
  obtain ⟨e,hrun,hmessage⟩ := List.map_eq_singleton_iff.mp hmessages
  have hresult : e.result=[] := by
    have hresults : (sendMessages relaySettings 0 [disguised] takingLink).map Sent.result=[[]] := by
      decide +kernel
    rw [hrun] at hresults
    exact (List.cons.inj hresults).1
  have hin : e∈sendMessages relaySettings 0 [disguised] takingLink := by
    rw [hrun]
    exact List.mem_singleton_self e
  have hintended := h relaySettings 0 [disguised] takingLink e hin hresult
  obtain ⟨hto,rand,hwritten⟩ := sendMessages_accepted hin hresult
  rw [hwritten,intended_wireLines_iff hto rand,hmessage] at hintended
  exact disguised_ambiguous hintended

end Intended

end FastPki.Smtp
