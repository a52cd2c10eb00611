import FastPki.Framework.InternetMessage
import FastPki.X509.Name
import Mathlib.Data.Nat.Digits.Defs

namespace FastPki.Smtp
open X509

structure MailMessage where
  -- `to`
  address : Octets
  subject : Octets
  body : Octets
  deriving DecidableEq

section Code

/-- A number that is kept in an `int`. -/
def toInt (n : Int) : Int := n.bmod (2^32)

/-- `EVP_EncodeBlock`: the text of the first `dlen` octets, none where it is not positive, and the
number of its octets. -/
def encodeBlock (s : Octets) (dlen : Int) : Octets × Int :=
  let text := base64Text (s.take dlen.toNat)
  (text,toInt text.length)

def b64 (s : Octets) : Octets :=
  if s = [] then []
  else
    let r := encodeBlock s (toInt s.length)
    r.1.take r.2.toNat

def isControl (u : UInt8) : Bool := u < 0x20 ∨ u = 0x7f

/-- A line break in a header value would start a header of the requester's choosing. -/
def oneLine (raw : Octets) : Octets := raw.map fun u => if isControl u then 0x20 else u

def isContinuation (c : UInt8) : Bool := c &&& 0xc0 = 0x80

/-- From `n` down to a place where no continuation octet stands, or to the start. -/
def backUp (s : Octets) : Nat → Nat
  | 0 => 0
  | n+1 => if s[n+1]?.any isContinuation then backUp s n else n+1

/-- The subject on one line, of at most 300 octets. -/
def subjectText (raw : Octets) : Octets :=
  let s := oneLine raw
  if s.length > 300 then s.take (backUp s 300) else s

/-- How much of what is left goes into the next encoded word. -/
def chunkSize (s : Octets) : Nat :=
  let n := backUp s (min 45 s.length)
  if n = 0 then min 45 s.length else n

theorem chunkSize_pos (s : Octets) (hs : s≠[]) : 0<chunkSize s := by
  have hlen : 0<s.length := List.length_pos_iff.mpr hs
  simp only [chunkSize]
  split_ifs with h
  · omega
  · omega

def isAscii (s : Octets) : Bool := s.all (· < 0x80)

def chunkWord (t : Octets) : Octets := octets "=?UTF-8?B?"++b64 t++octets "?="

/-- One line, and encoded words when it is not plain ASCII. -/
def subjectHeader (raw : Octets) : Octets :=
  let s := subjectText raw
  if isAscii s then s
  else (octets "\r\n ").intercalate ((slices chunkSize chunkSize_pos s).map chunkWord)

def atSign : UInt8 := 0x40
def fullStop : UInt8 := 0x2e

def mailboxDomain (a : Octets) : Octets := (a.dropWhile (· ≠ atSign)).drop 1

/-- What an address is made of. -/
def mailboxOctet (u : UInt8) : Bool :=
  0x20 < u && u < 0x7f && !(octets "<>(),;:\"[]\\").contains u

def plausibleMailbox (a : Octets) : Bool :=
  3 ≤ a.length && a.length ≤ 254 && a.contains atSign && a.head? != some atSign &&
  mailboxDomain a != [] && !(mailboxDomain a).contains atSign && a.all mailboxOctet &&
  (mailboxDomain a).head? != some fullStop && (mailboxDomain a).getLast? != some fullStop &&
  !(mailboxDomain a).tails.any ([fullStop,fullStop].isPrefixOf ·)

/-- The relay settings as far as sending reads them. `smtp_settings` refuses a sender that is not an
address. -/
structure SmtpSettings where
  host : Octets
  -- `from`
  sender : Octets
  timeoutSec : Nat
  usable : plausibleMailbox sender=true

/-- The broken-down time. -/
structure Tm where
  sec : Nat := 0
  minute : Nat := 0
  hour : Nat := 0
  mday : Nat := 0
  mon : Nat := 0
  -- since 1900
  year : Int := 0
  wday : Nat := 0
  deriving DecidableEq

/-- The day, month and year of a day since 1 January 1970. Years are counted from March, so that a
leap day is the last of its year. -/
def civilDate (days : Int) : Nat × Nat × Int :=
  let z := days+719468
  let era := z/146097
  let doe := (z%146097).toNat
  let yoe := (doe-doe/1460+doe/36524-doe/146096)/365
  let doy := doe-(365*yoe+yoe/4-yoe/100)
  let mp := (5*doy+2)/153
  let mon := if mp < 10 then mp+2 else mp-10
  (doy-(153*mp+2)/5+1,mon,yoe+era*400+if mon ≤ 1 then 1 else 0)

/-- `gmtime_r`, which fails when the year does not fit into an `int`. -/
def gmtime (t : Int) : Option Tm :=
  let rem := (t%86400).toNat
  let date := civilDate (t/86400)
  let year := date.2.2-1900
  if toInt year = year then
    some ⟨rem%60,rem/60%60,rem/3600,date.1,date.2.1,year,((t/86400+4)%7).toNat⟩
  else none

/-- `%0<width>d`. -/
def zeroPadded (width n : Nat) : Octets :=
  let digits := (Nat.digits 10 n).reverse.map fun d => UInt8.ofNat (0x30+d)
  List.replicate (width-digits.length) 0x30++digits

def zeroPaddedInt (width : Nat) (n : Int) : Octets :=
  if n < 0 then 0x2d::zeroPadded (width-1) n.natAbs else zeroPadded width n.natAbs

def dayNames : List Octets := ["Sun","Mon","Tue","Wed","Thu","Fri","Sat"].map octets

def monthNames : List Octets :=
  ["Jan","Feb","Mar","Apr","May","Jun","Jul","Aug","Sep","Oct","Nov","Dec"].map octets

/-- The date as `snprintf` leaves it in a buffer of 64. -/
def mailDate (now : Int) : Octets :=
  let tm := (gmtime now).getD {}
  (dayNames.getD (tm.wday%7) []++octets ", "++zeroPadded 2 tm.mday++octets " "++
    monthNames.getD (tm.mon%12) []++octets " "++zeroPaddedInt 4 (tm.year+1900)++octets " "++
    zeroPadded 2 tm.hour++octets ":"++zeroPadded 2 tm.minute++octets ":"++zeroPadded 2 tm.sec++
    octets " +0000").take 63

/-- What `RAND_bytes` gives for a message. -/
abbrev Random := Fin 16 → UInt8

def randomHex (rand : Random) : Octets :=
  let hex := octets "0123456789abcdef"
  (List.ofFn rand).flatMap fun b => [hex.getD (b.toNat/16) 0,hex.getD (b.toNat%16) 0]

/-- Before a line feed a carriage return is put in where none stands; `prev` is the octet before. -/
def normaliseFrom : Option UInt8 → Octets → Octets
  | _,[] => []
  | prev,c::cs =>
    if c = 0x0a ∧ prev ≠ some 0x0d then 0x0d::c::normaliseFrom (some c) cs
    else c::normaliseFrom (some c) cs

def normaliseBody (body : Octets) : Octets := normaliseFrom none body

def bodyLines (enc : Octets) : List Octets := slices (fun _ => 76) (fun _ _ => by decide) enc

/-- The message as it goes on the wire after DATA, without the dot that ends it. -/
def formatMail (s : SmtpSettings) (m : MailMessage) (now : Int) (rand : Random) : Octets :=
  octets "From: "++s.sender++octets "\r\n"++
  octets "To: "++m.address++octets "\r\n"++
  octets "Subject: "++subjectHeader m.subject++octets "\r\n"++
  octets "Date: "++mailDate now++octets "\r\n"++
  octets "Message-ID: <"++randomHex rand++octets "@"++mailboxDomain s.sender++octets ">\r\n"++
  octets "MIME-Version: 1.0\r\n"++
  octets "Content-Type: text/plain; charset=utf-8\r\n"++
  octets "Content-Transfer-Encoding: base64\r\n"++
  -- an automatic message, so a vacation responder does not answer it
  octets "Auto-Submitted: auto-generated\r\n"++
  octets "\r\n"++
  -- base64, because a body is whatever a requester chose
  (bodyLines (b64 (normaliseBody m.body))).flatMap (·++octets "\r\n")

end Code

section Base64

/-- The most octets whose base64 is counted in an `int`. -/
def b64Limit : Nat := 1610612733

theorem toInt_of_small {n : Nat} (h : n<2147483648) : toInt n=n := by
  rw [toInt,Int.bmod_def]
  split_ifs with hlow
  · omega
  · omega

/-- A count that is too large becomes a smaller one. -/
theorem toInt_of_large {n : Nat} (h : 2147483648 ≤ n) : toInt n<n ∧ toInt n<2147483648 := by
  rw [toInt,Int.bmod_def]
  split_ifs with hlow
  · omega
  · omega

theorem toInt_nonpos {n : Nat} (h : 2147483648 ≤ n) (hn : n ≤ 4294967296) : toInt n ≤ 0 := by
  rw [toInt,Int.bmod_def]
  split_ifs with hlow
  · omega
  · omega

theorem b64_of_le {s : Octets} (h : s.length ≤ b64Limit) : b64 s=base64Text s := by
  have hlimit : b64Limit=1610612733 := rfl
  rw [b64]
  split_ifs with hs
  · rw [hs]
    rfl
  · have hlen : toInt s.length=s.length := toInt_of_small (by omega)
    have htext : toInt (base64Text s).length=(base64Text s).length := by
      apply toInt_of_small
      rw [base64Text_length]
      omega
    simp only [encodeBlock,hlen,Int.toNat_natCast,List.take_length,htext]

/-- A text whose base64 is too long to be counted is lost. -/
theorem b64_of_long {s : Octets} {d : Int} (hs : s≠[]) (hd : toInt s.length=d) (hlt : d<2147483648)
    (hlong : 2147483648 ≤ (base64Text (s.take d.toNat)).length) : b64 s=[] := by
  have htop : (base64Text (s.take d.toNat)).length ≤ 4294967296 := by
    rw [base64Text_length,List.length_take]
    omega
  have hzero : (toInt (base64Text (s.take d.toNat)).length).toNat=0 := by
    have hneg := toInt_nonpos hlong htop
    omega
  rw [b64,if_neg hs,hd]
  simp only [encodeBlock,hzero,List.take_zero]

theorem b64_of_short {s : Octets} {d : Int} (hs : s≠[]) (hd : toInt s.length=d)
    (hshort : (base64Text (s.take d.toNat)).length<2147483648) :
    b64 s=base64Text (s.take d.toNat) := by
  rw [b64,if_neg hs,hd]
  simp only [encodeBlock,toInt_of_small hshort,Int.toNat_natCast,List.take_length]

/-- Of a longer text at most the front is encoded. -/
theorem b64_of_lt {s : Octets} (h : b64Limit<s.length) :
    ∃ k<s.length,b64 s=base64Text (s.take k) := by
  have hlimit : b64Limit=1610612733 := rfl
  have hpos : 0<s.length := Nat.zero_lt_of_lt h
  have hs : s≠[] := List.length_pos_iff.mp hpos
  by_cases hlarge : 2147483648 ≤ s.length
  · obtain ⟨hless,hbound⟩ := toInt_of_large hlarge
    by_cases hlong : 2147483648 ≤ (base64Text (s.take (toInt s.length).toNat)).length
    · exact ⟨0,hpos,b64_of_long hs rfl hbound hlong⟩
    · exact ⟨(toInt s.length).toNat,by omega,b64_of_short hs rfl (Nat.lt_of_not_le hlong)⟩
  · have hsame : toInt s.length=s.length := toInt_of_small (Nat.lt_of_not_le hlarge)
    have hlong : 2147483648 ≤ (base64Text (s.take (s.length : Int).toNat)).length := by
      rw [base64Text_length,List.length_take]
      omega
    exact ⟨0,hpos,b64_of_long hs hsame (by omega) hlong⟩

theorem base64Decode_b64_iff (s : Octets) : base64Decode (b64 s)=some s ↔ s.length ≤ b64Limit := by
  constructor
  · intro h
    by_contra hlong
    obtain ⟨k,hk,hb⟩ := b64_of_lt (Nat.lt_of_not_le hlong)
    rw [hb,base64Decode_base64Text] at h
    have hlen := congrArg List.length (Option.some.inj h)
    rw [List.length_take] at hlen
    omega
  · intro h
    rw [b64_of_le h,base64Decode_base64Text]

/-- Whatever is encoded, only base64 is written. -/
theorem mem_b64 {s : Octets} {c : UInt8} (h : c∈b64 s) : c=padSign ∨ ∃ n,sextet c=some n := by
  by_cases hlen : s.length ≤ b64Limit
  · rw [b64_of_le hlen] at h
    exact mem_base64Text h
  · obtain ⟨k,_,hb⟩ := b64_of_lt (Nat.lt_of_not_le hlen)
    rw [hb] at h
    exact mem_base64Text h

end Base64

section Subject

/-- `p` is what is left of `s` when at most `limit` octets fit: the cut is the last one that is not
before a continuation octet. -/
structure CutTo (limit : Nat) (s p : Octets) : Prop where
  front : p <+: s
  short : p.length ≤ limit
  whole : s.length ≤ limit → p=s
  boundary : p=[] ∨ s[p.length]?.any isContinuation=false
  longest : limit<s.length → ∀ n,p.length<n → n ≤ limit → s[n]?.any isContinuation=true

theorem CutTo.length_le {limit : Nat} {s p q : Octets} (hp : CutTo limit s p) (hq : CutTo limit s q) :
    q.length ≤ p.length := by
  by_cases hs : s.length ≤ limit
  · rw [hp.whole hs,hq.whole hs]
  · by_contra hlt
    have hcont := hp.longest (Nat.lt_of_not_le hs) q.length (Nat.lt_of_not_le hlt) hq.short
    obtain hnil|hno := hq.boundary
    · rw [hnil] at hlt
      exact hlt (Nat.zero_le _)
    · rw [hcont] at hno
      cases hno

theorem CutTo.unique {limit : Nat} {s p q : Octets} (hp : CutTo limit s p) (hq : CutTo limit s q) :
    p=q := by
  have hlen : p.length=q.length := Nat.le_antisymm (hq.length_le hp) (hp.length_le hq)
  rw [List.prefix_iff_eq_take.mp hp.front,List.prefix_iff_eq_take.mp hq.front,hlen]

theorem backUp_le (s : Octets) (n : Nat) : backUp s n ≤ n := by
  induction n with
  | zero => exact Nat.le_refl _
  | succ n ih =>
    rw [backUp]
    split_ifs
    · omega
    · omega

/-- Where the loop stops no continuation octet stands, unless it is the start. -/
theorem backUp_boundary (s : Octets) (n : Nat) :
    backUp s n=0 ∨ s[backUp s n]?.any isContinuation=false := by
  induction n with
  | zero => exact Or.inl rfl
  | succ n ih =>
    rw [backUp]
    split_ifs with h
    · exact ih
    · exact Or.inr (Bool.eq_false_iff.mpr h)

theorem backUp_longest {s : Octets} {n j : Nat} (hlow : backUp s n<j) (hj : j ≤ n) :
    s[j]?.any isContinuation=true := by
  induction n with
  | zero => omega
  | succ n ih =>
    rw [backUp] at hlow
    split_ifs at hlow with h
    · by_cases heq : j=n+1
      · rw [heq]
        exact h
      · exact ih hlow (by omega)
    · omega

theorem subjectText_cut (raw : Octets) : CutTo 300 (oneLine raw) (subjectText raw) := by
  simp only [subjectText]
  split_ifs with hlong
  · have hle := backUp_le (oneLine raw) 300
    have hlen : ((oneLine raw).take (backUp (oneLine raw) 300)).length=
        backUp (oneLine raw) 300 := by
      rw [List.length_take]
      omega
    refine ⟨List.take_prefix _ _,by omega,fun h => by omega,?_,?_⟩
    · rw [hlen]
      obtain hzero|hno := backUp_boundary (oneLine raw) 300
      · left
        rw [hzero,List.take_zero]
      · exact Or.inr hno
    · intro _ n hn hn'
      rw [hlen] at hn
      exact backUp_longest hn hn'
  · refine ⟨List.prefix_rfl,by omega,fun _ => rfl,?_,fun h => by omega⟩
    right
    simp

theorem plainLine_oneLine (raw : Octets) : PlainLine (oneLine raw) := by
  intro c hc
  obtain ⟨u,_,rfl⟩ := List.mem_map.mp hc
  split_ifs with hctl
  · decide
  · constructor
    · rintro rfl
      exact hctl (by decide)
    · rintro rfl
      exact hctl (by decide)

theorem plainLine_subjectText (raw : Octets) : PlainLine (subjectText raw) :=
  fun c hc => plainLine_oneLine raw c ((subjectText_cut raw).front.mem hc)

/-- The parts of the Subject line that line breaks stand between. -/
def subjectWords (raw : Octets) : List Octets :=
  let s := subjectText raw
  if isAscii s then [s] else (slices chunkSize chunkSize_pos s).map encodedWord

theorem chunkSize_le (s : Octets) : chunkSize s ≤ 45 := by
  have hle := backUp_le s (min 45 s.length)
  simp only [chunkSize]
  split_ifs
  · omega
  · omega

theorem chunks_fit (s : Octets) : ∀ t∈slices chunkSize chunkSize_pos s,t≠[] ∧ t.length ≤ 45 := by
  apply slices_forall
  intro s hs
  have hpos := chunkSize_pos s hs
  have hle := chunkSize_le s
  constructor
  · intro hnil
    obtain hzero|hempty := List.take_eq_nil_iff.mp hnil
    · omega
    · exact hs hempty
  · rw [List.length_take]
    omega

theorem chunkWord_eq {t : Octets} (h : t.length ≤ 45) : chunkWord t=encodedWord t := by
  have hopen : octets "=?UTF-8?B?"=[0x3d,0x3f,0x55,0x54,0x46,0x2d,0x38,0x3f,0x42,0x3f] := by
    decide
  have hclose : octets "?="=[0x3f,0x3d] := by decide
  have hlimit : b64Limit=1610612733 := rfl
  rw [chunkWord,hopen,hclose,b64_of_le (by omega),encodedWord]

theorem subjectHeader_eq (raw : Octets) :
    subjectHeader raw=(crlf++[0x20]).intercalate (subjectWords raw) := by
  have hfold : octets "\r\n "=crlf++[0x20] := by decide
  simp only [subjectHeader,subjectWords]
  split_ifs with hascii
  · simp [List.intercalate]
  · have hsame : (slices chunkSize chunkSize_pos (subjectText raw)).map chunkWord=
        (slices chunkSize chunkSize_pos (subjectText raw)).map encodedWord :=
      List.map_congr_left fun t ht => chunkWord_eq (chunks_fit _ t ht).2
    rw [hfold,hsame]

/-- The Subject value is read as the text exactly when encoded words were used for it or none is in
it. -/
theorem decodeText_subjectWords_iff (raw : Octets) :
    decodeText ([0x20].intercalate (subjectWords raw))=subjectText raw ↔
      isAscii (subjectText raw)=false ∨ ∀ w∈pieces (subjectText raw),decodeWord w=none := by
  simp only [subjectWords]
  split_ifs with hascii
  · have hone : [(0x20 : UInt8)].intercalate [subjectText raw]=subjectText raw := by
      simp [List.intercalate]
    rw [hone,decodeText_eq_self_iff,hascii]
    simp
  · have hwords := decodeText_encodedWords (chunks_fit (subjectText raw))
    rw [slices_flatten] at hwords
    simp [hwords,hascii]

end Subject

end FastPki.Smtp
