import FastPki.Smtp.Mail

namespace FastPki.Smtp
open X509

variable {s : SmtpSettings} {m : MailMessage}

section Body

theorem normaliseFrom_congr {p q : Option UInt8} (h : p=some 0x0d ↔ q=some 0x0d) (cs : Octets) :
    normaliseFrom p cs=normaliseFrom q cs := by
  cases cs with
  | nil => rfl
  | cons c cs => simp [normaliseFrom,h]

/-- `line` is what the loop has seen of the line at hand. -/
theorem normaliseFrom_line {line : Octets} (hline : 0x0a∉line) (cs : Octets) :
    line++normaliseFrom line.getLast? cs=crlfText (line++cs) := by
  induction cs generalizing line with
  | nil => rw [normaliseFrom,List.append_nil,crlfText_last hline]
  | cons c cs ih =>
    by_cases hc : c=0x0a
    · subst hc
      have hnext : normaliseFrom (some 0x0a) cs=crlfText cs := by
        have hsame : normaliseFrom (some 0x0a) cs=normaliseFrom none cs :=
          normaliseFrom_congr (by simp) cs
        rw [hsame]
        exact ih List.not_mem_nil
      rw [crlfText_line hline,normaliseFrom,hnext,dropCr]
      by_cases hcr : line.getLast?=some 0x0d
      · obtain ⟨front,rfl⟩ := List.getLast?_eq_some_iff.mp hcr
        rw [if_neg (by simp [hcr]),if_pos hcr]
        simp [crlf]
      · rw [if_pos ⟨rfl,hcr⟩,if_neg hcr]
        simp [crlf]
    · have hlonger : 0x0a∉line++[c] := by
        simp [hline,Ne.symm hc]
      have hstep := ih hlonger
      rw [List.getLast?_concat] at hstep
      rw [normaliseFrom,if_neg (by simp [hc])]
      simpa using hstep

theorem normaliseBody_eq (body : Octets) : normaliseBody body=crlfText body :=
  normaliseFrom_line List.not_mem_nil body

end Body

section Values

theorem plausibleMailbox_spec {a : Octets} (h : plausibleMailbox a=true) :
    a.length ≤ 254 ∧ ∀ u∈a,0x20<u ∧ u<0x7f := by
  simp only [plausibleMailbox,Bool.and_eq_true,decide_eq_true_eq,List.all_eq_true] at h
  obtain ⟨⟨⟨⟨⟨⟨⟨⟨⟨_,hlen⟩,_⟩,_⟩,_⟩,_⟩,hall⟩,_⟩,_⟩,_⟩ := h
  refine ⟨hlen,fun u hu => ?_⟩
  have hu' := hall u hu
  simp only [mailboxOctet,Bool.and_eq_true,decide_eq_true_eq] at hu'
  exact hu'.1

theorem plainLine_mailbox {a : Octets} (h : plausibleMailbox a=true) : PlainLine a :=
  plainLine_of_printable fun u hu => ((plausibleMailbox_spec h).2 u hu).1

theorem mailboxDomain_sublist (a : Octets) : List.Sublist (mailboxDomain a) a :=
  (List.drop_sublist 1 _).trans (List.dropWhile_sublist _)

theorem plainLine_zeroPadded (width n : Nat) : PlainLine (zeroPadded width n) := by
  apply plainLine_of_printable
  intro u hu
  simp only [zeroPadded,List.mem_append,List.mem_replicate,List.mem_map,List.mem_reverse] at hu
  obtain ⟨_,rfl⟩|⟨d,hd,rfl⟩ := hu
  · decide
  · have hlt : d<10 := Nat.digits_lt_base (by decide) hd
    have hall : ∀ d<10,(0x20 : UInt8)<UInt8.ofNat (0x30+d) := by decide
    exact hall d hlt

theorem plainLine_zeroPaddedInt (width : Nat) (n : Int) : PlainLine (zeroPaddedInt width n) := by
  rw [zeroPaddedInt]
  split_ifs
  · have hsign : PlainLine [0x2d] := by
      intro c hc
      obtain rfl := List.mem_singleton.mp hc
      decide
    exact plainLine_append.mpr ⟨hsign,plainLine_zeroPadded _ _⟩
  · exact plainLine_zeroPadded _ _

/-- The names and the text between the numbers of a date. -/
theorem plainLine_dateTexts : ∀ l∈[octets ", ",octets " ",octets ":",octets " +0000",[]]++
    (dayNames++monthNames),∀ c∈l,c≠0x0d ∧ c≠0x0a := by
  decide +kernel

theorem plainLine_getD {names : List Octets} (h : ∀ l∈names,l∈dayNames++monthNames) (n : Nat) :
    PlainLine (names.getD n []) := by
  rw [List.getD_eq_getElem?_getD]
  cases hget : names[n]? with
  | none =>
    intro c hc
    cases hc
  | some l =>
    have hl : l∈dayNames++monthNames := h l (List.mem_of_getElem? hget)
    exact plainLine_dateTexts l (List.mem_append_right _ hl)

theorem plainLine_mailDate (now : Int) : PlainLine (mailDate now) := by
  have hday : ∀ n,PlainLine (dayNames.getD n []) :=
    plainLine_getD fun l hl => List.mem_append_left _ hl
  have hmonth : ∀ n,PlainLine (monthNames.getD n []) :=
    plainLine_getD fun l hl => List.mem_append_right _ hl
  have hcomma : PlainLine (octets ", ") := plainLine_dateTexts _ (by simp)
  have hblank : PlainLine (octets " ") := plainLine_dateTexts _ (by simp)
  have hcolon : PlainLine (octets ":") := plainLine_dateTexts _ (by simp)
  have hzone : PlainLine (octets " +0000") := plainLine_dateTexts _ (by simp)
  intro c hc
  refine (?_ : PlainLine _) c (List.mem_of_mem_take hc)
  simp only [plainLine_append,hday,hmonth,hcomma,hblank,hcolon,hzone,plainLine_zeroPadded,
    plainLine_zeroPaddedInt,and_self]

theorem mailDate_length (now : Int) : (mailDate now).length ≤ 63 := List.length_take_le _ _

theorem plainLine_randomHex (rand : Random) : PlainLine (randomHex rand) := by
  have hall : ∀ n<16,(0x20 : UInt8)<(octets "0123456789abcdef").getD n 0 := by decide
  apply plainLine_of_printable
  intro u hu
  obtain ⟨b,_,hb⟩ := List.mem_flatMap.mp hu
  have hlt := b.toNat_lt
  obtain rfl|rfl : u=(octets "0123456789abcdef").getD (b.toNat/16) 0 ∨
      u=(octets "0123456789abcdef").getD (b.toNat%16) 0 := by simpa using hb
  · exact hall _ (by omega)
  · exact hall _ (by omega)

theorem randomHex_length (rand : Random) : (randomHex rand).length=32 := by
  have htwo : ∀ l : List UInt8,(l.flatMap fun b => [(octets "0123456789abcdef").getD (b.toNat/16) 0,
      (octets "0123456789abcdef").getD (b.toNat%16) 0]).length=2*l.length := by
    intro l
    induction l with
    | nil => rfl
    | cons b l ih =>
      rw [List.flatMap_cons,List.length_append,ih]
      simp only [List.length_cons,List.length_nil]
      omega
  rw [randomHex,htwo,List.length_ofFn]

end Values

section Lines

/-- A line that may stand in a message: it is one line, short enough, and does not end the message. -/
structure MailLine (l : Octets) : Prop where
  plain : PlainLine l
  short : l.length ≤ 998
  noDot : l≠[fullStop]

def messageId (s : SmtpSettings) (rand : Random) : Octets :=
  octets "<"++randomHex rand++octets "@"++mailboxDomain s.sender++octets ">"

def fieldsBefore (s : SmtpSettings) (m : MailMessage) : List (Octets × Octets) :=
  [(octets "From",s.sender),(octets "To",m.address)]

def fieldsAfter (s : SmtpSettings) (now : Int) (rand : Random) : List (Octets × Octets) :=
  [(octets "Date",mailDate now),(octets "Message-ID",messageId s rand),
    (octets "MIME-Version",octets "1.0"),
    (octets "Content-Type",octets "text/plain; charset=utf-8"),
    (octets "Content-Transfer-Encoding",octets "base64"),
    (octets "Auto-Submitted",octets "auto-generated")]

def subjectLines (raw : Octets) : List Octets :=
  match subjectWords raw with
  | [] => []
  | w::ws => fieldLine (octets "Subject",w)::ws.map (0x20::·)

def mailLines (s : SmtpSettings) (m : MailMessage) (now : Int) (rand : Random) : List Octets :=
  (fieldsBefore s m).map fieldLine++(subjectLines m.subject++(fieldsAfter s now rand).map fieldLine)++
    []::bodyLines (b64 (normaliseBody m.body))

theorem subjectWords_ne_nil (raw : Octets) : subjectWords raw≠[] := by
  simp only [subjectWords]
  split_ifs with hascii
  · exact List.cons_ne_nil _ _
  · intro hnil
    rw [List.map_eq_nil_iff] at hnil
    have hflat : (slices chunkSize chunkSize_pos (subjectText raw)).flatten=subjectText raw :=
      slices_flatten _
    rw [hnil] at hflat
    rw [← hflat] at hascii
    exact hascii rfl

theorem formatMail_eq (now : Int) (rand : Random) :
    formatMail s m now rand=unlines (mailLines s m now rand) := by
  obtain ⟨w,ws,hw⟩ := List.exists_cons_of_ne_nil (subjectWords_ne_nil m.subject)
  have hcrlf : octets "\r\n"=crlf := by decide
  have hfrom : octets "From: "=octets "From"++[colonSign,0x20] := by decide
  have hto : octets "To: "=octets "To"++[colonSign,0x20] := by decide
  have hsubject : octets "Subject: "=octets "Subject"++[colonSign,0x20] := by decide
  have hdate : octets "Date: "=octets "Date"++[colonSign,0x20] := by decide
  have hid : octets "Message-ID: <"=octets "Message-ID"++[colonSign,0x20]++octets "<" := by
    decide
  have hidEnd : octets ">\r\n"=octets ">"++crlf := by decide
  have hmime : octets "MIME-Version: 1.0\r\n"=fieldLine (octets "MIME-Version",octets "1.0")++crlf := by
    decide
  have htype : octets "Content-Type: text/plain; charset=utf-8\r\n"=
      fieldLine (octets "Content-Type",octets "text/plain; charset=utf-8")++crlf := by decide
  have hencoding : octets "Content-Transfer-Encoding: base64\r\n"=
      fieldLine (octets "Content-Transfer-Encoding",octets "base64")++crlf := by decide
  have hauto : octets "Auto-Submitted: auto-generated\r\n"=
      fieldLine (octets "Auto-Submitted",octets "auto-generated")++crlf := by decide
  have hfold : fieldLine (octets "Subject",[])++(crlf++[0x20]).intercalate (w::ws)++crlf=
      unlines (fieldLine (octets "Subject",w)::ws.map (0x20::·)) := by
    rw [unlines_folded]
    simp [fieldLine]
  have hbody : (bodyLines (b64 (normaliseBody m.body))).flatMap (·++crlf)=
      unlines (bodyLines (b64 (normaliseBody m.body))) := rfl
  -- the equation of `formatMail` would be checked by reading its texts
  delta formatMail
  simp only [mailLines,subjectLines,subjectHeader_eq,hw,hcrlf,hfrom,hto,hsubject,hdate,hid,
    hidEnd,hmime,htype,hencoding,hauto,hbody,unlines_append,← hfold]
  simp [fieldsBefore,fieldsAfter,unlines,fieldLine,messageId]

/-- The Subject value behind the line breaks. -/
def subjectValue (raw : Octets) : Octets := [0x20].intercalate (subjectWords raw)

/-- The names that `format_mail` writes. -/
theorem fieldNames : ∀ n∈["From","To","Subject","Date","Message-ID","MIME-Version","Content-Type",
    "Content-Transfer-Encoding","Auto-Submitted"].map octets,
    n.length ≤ 25 ∧ n≠[] ∧ ∀ c∈n,(0x21 ≤ c ∧ c ≤ 0x7e) ∧ c≠colonSign := by
  decide +kernel

theorem fieldName_subject : FieldName (octets "Subject") := (fieldNames _ (by simp)).2

theorem fieldsBefore_names {f : Octets × Octets} (hf : f∈fieldsBefore s m) :
    f.1.length ≤ 25 ∧ FieldName f.1 := by
  apply fieldNames
  simp only [fieldsBefore,List.mem_cons,List.not_mem_nil,or_false] at hf
  obtain rfl|rfl := hf
  · simp
  · simp

theorem fieldsAfter_names {now : Int} {rand : Random} {f : Octets × Octets}
    (hf : f∈fieldsAfter s now rand) : f.1.length ≤ 25 ∧ FieldName f.1 := by
  apply fieldNames
  simp only [fieldsAfter,List.mem_cons,List.not_mem_nil,or_false] at hf
  obtain rfl|rfl|rfl|rfl|rfl|rfl := hf
  · simp
  · simp
  · simp
  · simp
  · simp
  · simp

/-- What a reader makes of the message: the fields that are named, and the body. -/
theorem readMail_mailLines (now : Int) (rand : Random) :
    readMail (mailLines s m now rand)=
      some ⟨fieldsBefore s m++(octets "Subject",subjectValue m.subject)::fieldsAfter s now rand,
        bodyLines (b64 (normaliseBody m.body))⟩ := by
  obtain ⟨w,ws,hw⟩ := List.exists_cons_of_ne_nil (subjectWords_ne_nil m.subject)
  have hmore : ∀ l∈ws.map (0x20::·),startsBlank l=true := by
    intro l hl
    obtain ⟨v,_,rfl⟩ := List.mem_map.mp hl
    rfl
  have hbefore : ∀ f∈fieldsBefore s m,FieldName f.1 := fun f hf => (fieldsBefore_names hf).2
  have hafter : ∀ f∈fieldsAfter s now rand,FieldName f.1 := fun f hf => (fieldsAfter_names hf).2
  have hread := readMail_folded w (bodyLines (b64 (normaliseBody m.body))) hbefore fieldName_subject
    hmore hafter
  rw [mailLines,subjectLines,subjectValue,hw,hread,flatten_folded]

theorem mailLine_field {name value : Octets} (hname : name.length ≤ 25 ∧ FieldName name)
    (hplain : PlainLine value) (hlen : value.length ≤ 300) : MailLine (fieldLine (name,value)) := by
  have hprint : PlainLine name := plainLine_of_printable hname.2.printable
  have hsep : PlainLine [colonSign,0x20] := by
    show ∀ c∈[colonSign,0x20],c≠0x0d ∧ c≠0x0a
    decide +kernel
  have hshape : fieldLine (name,value)=name++([colonSign,0x20]++value) := rfl
  refine ⟨?_,?_,?_⟩
  · rw [hshape]
    exact plainLine_append.mpr ⟨hprint,plainLine_append.mpr ⟨hsep,hplain⟩⟩
  · rw [hshape]
    simp only [List.length_append,List.length_cons,List.length_nil]
    omega
  · intro hdot
    have hone := congrArg List.length hdot
    rw [hshape] at hone
    simp only [List.length_append,List.length_cons,List.length_nil] at hone
    omega

/-- The parts of the Subject line are lines of at most 300 octets. -/
theorem subjectWords_fit {raw w : Octets} (hw : w∈subjectWords raw) :
    PlainLine w ∧ w.length ≤ 300 := by
  simp only [subjectWords] at hw
  split_ifs at hw with hascii
  · obtain rfl := List.mem_singleton.mp hw
    exact ⟨plainLine_subjectText raw,(subjectText_cut raw).short⟩
  · obtain ⟨t,ht,rfl⟩ := List.mem_map.mp hw
    have hlen := (chunks_fit _ t ht).2
    refine ⟨plainLine_of_printable fun c hc => encodedWord_printable hc,?_⟩
    rw [encodedWord_length]
    omega

theorem mailLine_subject {raw l : Octets} (hl : l∈subjectLines raw) : MailLine l := by
  obtain ⟨w,ws,hw⟩ := List.exists_cons_of_ne_nil (subjectWords_ne_nil raw)
  have hfit : ∀ v∈w::ws,PlainLine v ∧ v.length ≤ 300 := by
    intro v hv
    rw [← hw] at hv
    exact subjectWords_fit hv
  rw [subjectLines,hw] at hl
  obtain rfl|hl := List.mem_cons.mp hl
  · obtain ⟨hplain,hlen⟩ := hfit w List.mem_cons_self
    exact mailLine_field (fieldNames _ (by simp)) hplain hlen
  · obtain ⟨v,hv,rfl⟩ := List.mem_map.mp hl
    obtain ⟨hplain,hlen⟩ := hfit v (List.mem_cons_of_mem w hv)
    refine ⟨?_,?_,?_⟩
    · intro c hc
      obtain rfl|hc := List.mem_cons.mp hc
      · decide
      · exact hplain c hc
    · rw [List.length_cons]
      omega
    · intro hdot
      have hfirst : (0x20 : UInt8)=fullStop := (List.cons.inj hdot).1
      exact absurd hfirst (by decide)

theorem bodyLines_flatten (enc : Octets) : (bodyLines enc).flatten=enc := slices_flatten enc

theorem mailLine_body {body l : Octets} (hl : l∈bodyLines (b64 body)) : MailLine l := by
  have hmem : ∀ c∈l,c∈b64 body := by
    intro c hc
    rw [← bodyLines_flatten (b64 body)]
    exact List.mem_flatten_of_mem hl hc
  have hlen : l.length ≤ 76 := by
    refine slices_forall (P := fun t => t.length ≤ 76) ?_ (b64 body) l hl
    intro t _
    rw [List.length_take]
    omega
  refine ⟨?_,by omega,?_⟩
  · apply plainLine_of_printable
    intro c hc
    obtain rfl|⟨n,hn⟩ := mem_b64 (hmem c hc)
    · decide
    · exact sextet_printable hn
  · intro hdot
    have hin : fullStop∈b64 body := hmem fullStop (by rw [hdot]; exact List.mem_singleton_self _)
    obtain hpad|⟨n,hn⟩ := mem_b64 hin
    · revert hpad
      decide
    · have hnone : sextet fullStop=none := by decide
      rw [hnone] at hn
      cases hn

theorem plainLine_messageId (s : SmtpSettings) (rand : Random) : PlainLine (messageId s rand) := by
  have hdomain : PlainLine (mailboxDomain s.sender) := fun c hc =>
    plainLine_mailbox s.usable c ((mailboxDomain_sublist s.sender).mem hc)
  have hsigns : ∀ l∈[octets "<",octets "@",octets ">"],∀ c∈l,c≠0x0d ∧ c≠0x0a := by decide +kernel
  have hopen : PlainLine (octets "<") := hsigns _ (by simp)
  have hat : PlainLine (octets "@") := hsigns _ (by simp)
  have hclose : PlainLine (octets ">") := hsigns _ (by simp)
  simp only [messageId,plainLine_append,plainLine_randomHex,hdomain,hopen,hat,hclose,and_self]

theorem messageId_length (s : SmtpSettings) (rand : Random) : (messageId s rand).length ≤ 300 := by
  have hdomain := (mailboxDomain_sublist s.sender).length_le
  have hsender := (plausibleMailbox_spec s.usable).1
  have hopen : (octets "<").length=1 := by decide
  have hat : (octets "@").length=1 := by decide
  have hclose : (octets ">").length=1 := by decide
  simp only [messageId,List.length_append,randomHex_length,hopen,hat,hclose]
  omega

/-- Every value but the Subject is short and on one line. -/
theorem mailLine_before (hto : plausibleMailbox m.address=true) {l : Octets}
    (hl : l∈(fieldsBefore s m).map fieldLine) : MailLine l := by
  obtain ⟨f,hf,rfl⟩ := List.mem_map.mp hl
  have hname := fieldsBefore_names hf
  have hsender := (plausibleMailbox_spec s.usable).1
  have haddress := (plausibleMailbox_spec hto).1
  simp only [fieldsBefore,List.mem_cons,List.not_mem_nil,or_false] at hf
  obtain rfl|rfl := hf
  · exact mailLine_field hname (plainLine_mailbox s.usable) (by omega)
  · exact mailLine_field hname (plainLine_mailbox hto) (by omega)

theorem mailLine_after {now : Int} {rand : Random} {l : Octets}
    (hl : l∈(fieldsAfter s now rand).map fieldLine) : MailLine l := by
  obtain ⟨f,hf,rfl⟩ := List.mem_map.mp hl
  have hname := fieldsAfter_names hf
  have hdate := mailDate_length now
  have hfixed : ∀ l∈[octets "1.0",octets "text/plain; charset=utf-8",octets "base64",
      octets "auto-generated"],l.length ≤ 300 ∧ ∀ c∈l,c≠0x0d ∧ c≠0x0a := by decide +kernel
  have hfixedLine : ∀ l∈[octets "1.0",octets "text/plain; charset=utf-8",octets "base64",
      octets "auto-generated"],∀ name : Octets,name.length ≤ 25 ∧ FieldName name →
      MailLine (fieldLine (name,l)) :=
    fun l hl name hname => mailLine_field hname (hfixed l hl).2 (hfixed l hl).1
  simp only [fieldsAfter,List.mem_cons,List.not_mem_nil,or_false] at hf
  obtain rfl|rfl|rfl|rfl|rfl|rfl := hf
  · exact mailLine_field hname (plainLine_mailDate now) (by omega)
  · exact mailLine_field hname (plainLine_messageId s rand) (messageId_length s rand)
  · exact hfixedLine _ (by simp) _ hname
  · exact hfixedLine _ (by simp) _ hname
  · exact hfixedLine _ (by simp) _ hname
  · exact hfixedLine _ (by simp) _ hname

/-- No line of the message is long, holds a line end or is the dot. -/
theorem mailLine_mailLines (hto : plausibleMailbox m.address=true) {now : Int} {rand : Random}
    {l : Octets} (hl : l∈mailLines s m now rand) : MailLine l := by
  simp only [mailLines,List.mem_append,List.mem_cons] at hl
  obtain (hl|hl|hl)|rfl|hl := hl
  · exact mailLine_before hto hl
  · exact mailLine_subject hl
  · exact mailLine_after hl
  · exact ⟨fun c hc => absurd hc List.not_mem_nil,Nat.zero_le _,by decide⟩
  · exact mailLine_body hl

end Lines

end FastPki.Smtp
