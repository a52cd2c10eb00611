import FastPki.Net.Address
import FastPki.Saml.Consume
import FastPki.Smtp.Mail
import Mathlib.Data.Nat.Digits.Lemmas

namespace FastPki.License

open X509 (Octets octets)
open Ascii (isDigit)
open Smtp (Tm civilDate gmtime zeroPadded zeroPaddedInt)

/-- `operator<` of two strings. -/
def textLess : Octets → Octets → Bool
  | _,[] => false
  | [],_::_ => true
  | a::s,b::t => a < b || (a = b && textLess s t)

def validIsoDate : Octets → Bool
  | [y1,y2,y3,y4,h1,m1,m2,h2,d1,d2] =>
    h1 = 0x2d && h2 = 0x2d && [y1,y2,y3,y4,m1,m2,d1,d2].all isDigit &&
      1 ≤ Ascii.value [m1,m2] && Ascii.value [m1,m2] ≤ 12 &&
      1 ≤ Ascii.value [d1,d2] && Ascii.value [d1,d2] ≤ 31
  | _ => false

/-- The year, month and day of ten symbols. -/
def dateOf (s : Octets) : Nat × Nat × Nat :=
  (Ascii.value (s.take 4),Ascii.value ((s.drop 5).take 2),Ascii.value ((s.drop 8).take 2))

/-- What `snprintf` leaves in a buffer of eleven. -/
def fmtDate (tm : Tm) : Octets :=
  (zeroPaddedInt 4 (tm.year+1900)++0x2d::zeroPadded 2 (tm.mon+1)++0x2d::zeroPadded 2 tm.mday).take 10

/-- `gmtime_r` that fails leaves the zeros. -/
def gm (t : Int) : Tm := (gmtime t).getD {}

def todayUtc (now : Int) : Octets := fmtDate (gm now)

/-- `date_plus_days`: noon of the date, and so many days on. -/
def datePlusDays (date : Octets) (days : Int) : Octets :=
  if !validIsoDate date then []
  else
    let (y,m,d) := dateOf date
    let base := Saml.timegm y m d 12 0 0
    if base = -1 then [] else fmtDate (gm (base+days*86400))

/-- The year, month and day of a moment in the Gregorian calendar, in which the code counts. -/
def utcDate (now : Int) : Int × Nat × Nat :=
  let date := civilDate (now/86400)
  (date.2.2,date.2.1+1,date.1)

/-- An expiry date that is over. -/
def before (d : Nat × Nat × Nat) (e : Int × Nat × Nat) : Bool :=
  d.1 < e.1 || (d.1 = e.1 && (d.2.1 < e.2.1 || (d.2.1 = e.2.1 && d.2.2 < e.2.2)))

section Order

theorem textLess_append {s t : Octets} (h : textLess s t=true) (hlen : s.length=t.length)
    (u v : Octets) : textLess (s++u) (t++v)=true := by
  induction s generalizing t with
  | nil =>
    rw [List.length_nil,eq_comm,List.length_eq_zero_iff] at hlen
    rw [hlen] at h
    cases h
  | cons a s ih =>
    cases t with
    | nil => cases h
    | cons b t =>
      simp only [textLess,Bool.or_eq_true,Bool.and_eq_true,decide_eq_true_eq,List.cons_append] at h ⊢
      obtain hlt|⟨hsame,hrest⟩ := h
      · exact Or.inl hlt
      · exact Or.inr ⟨hsame,ih hrest (Nat.succ.inj hlen)⟩

theorem textLess_append_left (s u v : Octets) : textLess (s++u) (s++v)=textLess u v := by
  induction s with
  | nil => rfl
  | cons a s ih => simp [textLess,ih]

theorem foldl_decimal (s : Octets) (n : Nat) :
    s.foldl (fun n c => 10*n+(c.toNat-0x30)) n=n*10^s.length+Ascii.value s := by
  induction s generalizing n with
  | nil => simp [Ascii.value]
  | cons c s ih =>
    rw [Ascii.value,List.foldl_cons,List.foldl_cons,ih,ih,List.length_cons,Nat.pow_succ]
    ring

theorem decimal_cons (c : UInt8) (s : Octets) :
    Ascii.value (c::s)=(c.toNat-0x30)*10^s.length+Ascii.value s := by
  rw [Ascii.value,List.foldl_cons,Nat.mul_zero,Nat.zero_add,foldl_decimal]

theorem isDigit_iff {c : UInt8} : isDigit c=true ↔ 0x30≤c.toNat ∧ c.toNat≤0x39 := by
  simp [isDigit,UInt8.le_iff_toNat_le]

theorem decimal_lt_pow {s : Octets} (hs : s.all isDigit=true) : Ascii.value s<10^s.length := by
  induction s with
  | nil => decide
  | cons c s ih =>
    rw [List.all_cons,Bool.and_eq_true,isDigit_iff] at hs
    have hrest := ih hs.2
    have hdigit : c.toNat-0x30≤9 := by omega
    rw [decimal_cons,List.length_cons,Nat.pow_succ]
    calc (c.toNat-0x30)*10^s.length+Ascii.value s
        < 9*10^s.length+10^s.length := Nat.add_lt_add_of_le_of_lt (Nat.mul_le_mul_right _ hdigit) hrest
      _ = 10^s.length*10 := by ring

/-- A greater first digit is worth more than all that follows. -/
theorem decimal_cons_lt {a b : UInt8} {s t : Octets} (hs : s.all isDigit=true)
    (hlen : s.length=t.length) (h : a.toNat-0x30 < b.toNat-0x30) :
    Ascii.value (a::s) < Ascii.value (b::t) := by
  have hbound := decimal_lt_pow hs
  have hmore : (a.toNat-0x30+1)*10^t.length≤(b.toNat-0x30)*10^t.length := Nat.mul_le_mul_right _ h
  rw [Nat.add_mul,Nat.one_mul] at hmore
  rw [hlen] at hbound
  rw [decimal_cons,decimal_cons,hlen]
  omega

/-- Numbers of one width sort as text. -/
theorem textLess_of_decimal_lt {s t : Octets} (hs : s.all isDigit=true) (ht : t.all isDigit=true)
    (hlen : s.length=t.length) (h : Ascii.value s < Ascii.value t) : textLess s t=true := by
  induction s generalizing t with
  | nil =>
    rw [List.length_nil,eq_comm,List.length_eq_zero_iff] at hlen
    rw [hlen] at h
    exact absurd h (Nat.lt_irrefl _)
  | cons a s ih =>
    cases t with
    | nil => cases hlen
    | cons b t =>
      have hlen' : s.length=t.length := Nat.succ.inj hlen
      rw [List.all_cons,Bool.and_eq_true,isDigit_iff] at hs ht
      simp only [textLess,Bool.or_eq_true,Bool.and_eq_true,decide_eq_true_eq]
      obtain hlt|heq|hgt := Nat.lt_trichotomy a.toNat b.toNat
      · exact Or.inl (UInt8.lt_iff_toNat_lt.mpr hlt)
      · have hsame : a=b := UInt8.toNat_inj.mp heq
        rw [hsame,decimal_cons,decimal_cons,hlen'] at h
        exact Or.inr ⟨hsame,ih hs.2 ht.2 hlen' (by omega)⟩
      · have hless := decimal_cons_lt ht.2 hlen'.symm (by omega : b.toNat-0x30 < a.toNat-0x30)
        omega

theorem eq_of_decimal_eq {s t : Octets} (hs : s.all isDigit=true) (ht : t.all isDigit=true)
    (hlen : s.length=t.length) (h : Ascii.value s=Ascii.value t) : s=t := by
  induction s generalizing t with
  | nil =>
    rw [List.length_nil,eq_comm,List.length_eq_zero_iff] at hlen
    exact hlen.symm
  | cons a s ih =>
    cases t with
    | nil => cases hlen
    | cons b t =>
      have hlen' : s.length=t.length := Nat.succ.inj hlen
      rw [List.all_cons,Bool.and_eq_true,isDigit_iff] at hs ht
      have hdigits : a.toNat-0x30=b.toNat-0x30 := by
        obtain hlt|heq|hgt := Nat.lt_trichotomy (a.toNat-0x30) (b.toNat-0x30)
        · have hless := decimal_cons_lt hs.2 hlen' hlt
          omega
        · exact heq
        · have hless := decimal_cons_lt ht.2 hlen'.symm hgt
          omega
      have hsame : a=b := UInt8.toNat_inj.mp (by omega)
      rw [decimal_cons,decimal_cons,hlen',hdigits] at h
      rw [hsame,ih hs.2 ht.2 hlen' (by omega)]

end Order

section Digits

theorem decimal_append (s t : Octets) :
    Ascii.value (s++t)=Ascii.value s*10^t.length+Ascii.value t := by
  have hsplit := foldl_decimal t (Ascii.value s)
  rw [← hsplit,Ascii.value,Ascii.value,List.foldl_append]

theorem decimal_replicate (k : Nat) : Ascii.value (List.replicate k 0x30)=0 := by
  induction k with
  | zero => rfl
  | succ k ih => simp [List.replicate_succ,decimal_cons,ih]

theorem decimal_reverse_digits {l : List Nat} (hl : ∀ d∈l,d < 10) :
    Ascii.value (l.reverse.map fun d => UInt8.ofNat (0x30+d))=Nat.ofDigits 10 l := by
  induction l with
  | nil => rfl
  | cons d l ih =>
    have hd : d < 10 := hl d List.mem_cons_self
    have hone : Ascii.value [UInt8.ofNat (0x30+d)]=d := by
      have hsmall : 0x30+d < 256 := by omega
      simp [Ascii.value,Nat.mod_eq_of_lt hsmall]
    rw [List.reverse_cons,List.map_append,List.map_singleton,decimal_append,hone,
      ih fun e he => hl e (List.mem_cons_of_mem d he),Nat.ofDigits_cons]
    simp
    ring

/-- A number that fits is written in its width, in digits that are worth it. -/
theorem zeroPadded_spec {width n : Nat} (h : n < 10^width) :
    (zeroPadded width n).length=width ∧ (zeroPadded width n).all isDigit=true ∧
      Ascii.value (zeroPadded width n)=n := by
  have hlen : (Nat.digits 10 n).length≤width := (Nat.digits_length_le_iff (by decide) n).mpr h
  have hsmall : ∀ d∈Nat.digits 10 n,d < 10 := fun d hd => Nat.digits_lt_base (by decide) hd
  refine ⟨?_,?_,?_⟩
  · simp only [zeroPadded,List.length_append,List.length_replicate,List.length_map,List.length_reverse]
    omega
  · rw [List.all_eq_true]
    intro c hc
    simp only [zeroPadded,List.mem_append,List.mem_replicate,List.mem_map,List.mem_reverse] at hc
    obtain ⟨-,rfl⟩|⟨d,hd,rfl⟩ := hc
    · decide
    · have hd10 := hsmall d hd
      have hfit : 0x30+d < 256 := by omega
      have hvalue : (UInt8.ofNat (0x30+d)).toNat=0x30+d := by simp [Nat.mod_eq_of_lt hfit]
      rw [isDigit_iff,hvalue]
      omega
  · rw [zeroPadded,decimal_append,decimal_replicate,decimal_reverse_digits hsmall,
      Nat.ofDigits_digits,Nat.zero_mul,Nat.zero_add]

end Digits

section Calendar

/-- The month counts from 0. -/
theorem civilDate_bounds (days : Int) : (civilDate days).1≤32 ∧ (civilDate days).2.1≤11 := by
  simp only [civilDate]
  have hdoe : ((days+719468)%146097).toNat < 146097 := by omega
  generalize ((days+719468)%146097).toNat=doe at hdoe
  generalize hyoe : (doe-doe/1460+doe/36524-doe/146096)/365=yoe
  generalize hdoy : doe-(365*yoe+yoe/4-yoe/100)=doy
  have hsmall : doy≤500 := by omega
  constructor
  · omega
  · split_ifs
    · omega
    · omega

theorem todayUtc_eq {now : Int} (hlow : 0≤(utcDate now).1) (hhigh : (utcDate now).1≤9999) :
    todayUtc now=zeroPadded 4 (utcDate now).1.toNat++
      0x2d::(zeroPadded 2 (utcDate now).2.1++0x2d::zeroPadded 2 (utcDate now).2.2) := by
  obtain ⟨hday,hmon⟩ := civilDate_bounds (now/86400)
  simp only [utcDate] at hlow hhigh ⊢
  rcases hdate : civilDate (now/86400) with ⟨d,m,y⟩
  rw [hdate] at hday hmon hlow hhigh
  dsimp only at hday hmon hlow hhigh ⊢
  have hyear : (zeroPadded 4 y.toNat).length=4 := (zeroPadded_spec (by omega)).1
  have hmonth : (zeroPadded 2 (m+1)).length=2 := (zeroPadded_spec (by omega)).1
  have hmday : (zeroPadded 2 d).length=2 := (zeroPadded_spec (by omega)).1
  have hint : Smtp.toInt (y-1900)=y-1900 := Int.bmod_eq_of_le (by omega) (by omega)
  have htm : (gm now).year=y-1900 ∧ (gm now).mon=m ∧ (gm now).mday=d := by
    simp [gm,gmtime,hdate,hint]
  have hpad : zeroPaddedInt 4 (y-1900+1900)=zeroPadded 4 y.toNat := by
    have hback : y-1900+1900=y := by omega
    have habs : y.natAbs=y.toNat := by omega
    rw [hback,zeroPaddedInt,if_neg (by omega),habs]
  rw [todayUtc,fmtDate,htm.1,htm.2.1,htm.2.2,hpad,List.append_assoc,List.cons_append]
  apply List.take_of_length_le
  simp only [List.length_append,List.length_cons,hyear,hmonth,hmday]
  omega

/-- The parts of a date that passes the check. -/
theorem validIsoDate_split {s : Octets} (h : validIsoDate s=true) :
    ∃ y m d : Octets,s=y++0x2d::(m++0x2d::d) ∧ y.length=4 ∧ m.length=2 ∧ d.length=2 ∧
      y.all isDigit=true ∧ m.all isDigit=true ∧ d.all isDigit=true ∧
      dateOf s=(Ascii.value y,Ascii.value m,Ascii.value d) := by
  unfold validIsoDate at h
  split at h
  · rename_i y1 y2 y3 y4 h1 m1 m2 h2 d1 d2
    simp only [Bool.and_eq_true,decide_eq_true_eq,List.all_cons,List.all_nil] at h
    obtain ⟨⟨⟨⟨⟨⟨rfl,rfl⟩,hdigits⟩,-⟩,-⟩,-⟩,-⟩ := h
    obtain ⟨hy1,hy2,hy3,hy4,hm1,hm2,hd1,hd2,-⟩ := hdigits
    exact ⟨[y1,y2,y3,y4],[m1,m2],[d1,d2],rfl,rfl,rfl,rfl,by simp [hy1,hy2,hy3,hy4],
      by simp [hm1,hm2],by simp [hd1,hd2],rfl⟩
  · cases h

/-- Up to the year 9999 the code takes every date that is over for one that sorts below today. -/
theorem textLess_of_before {s : Octets} {now : Int} (hvalid : validIsoDate s=true)
    (hyear : (utcDate now).1≤9999) (h : before (dateOf s) (utcDate now)=true) :
    textLess s (todayUtc now)=true := by
  obtain ⟨y,m,d,rfl,hylen,hmlen,hdlen,hy,hm,hd,hdate⟩ := validIsoDate_split hvalid
  obtain ⟨hday,hmon⟩ := civilDate_bounds (now/86400)
  simp only [before,hdate,Bool.or_eq_true,Bool.and_eq_true,decide_eq_true_eq] at h
  have hlow : 0≤(utcDate now).1 := by omega
  have hm2 : (utcDate now).2.1 < 10^2 := by
    simp only [utcDate]
    omega
  have hd2 : (utcDate now).2.2 < 10^2 := by
    simp only [utcDate]
    omega
  obtain ⟨hYlen,hY,hYval⟩ := zeroPadded_spec (by omega : (utcDate now).1.toNat < 10^4)
  obtain ⟨hMlen,hM,hMval⟩ := zeroPadded_spec hm2
  obtain ⟨hDlen,hD,hDval⟩ := zeroPadded_spec hd2
  rw [todayUtc_eq hlow hyear]
  obtain hlt|⟨heq,hrest⟩ := h
  · exact textLess_append (textLess_of_decimal_lt hy hY (by omega) (by omega)) (by omega) _ _
  · rw [eq_of_decimal_eq hy hY (by omega) (by omega),textLess_append_left]
    obtain hlt|⟨hmeq,hlast⟩ := hrest
    · have hmonth := textLess_of_decimal_lt hm hM (by omega) (by omega)
      have hfront := textLess_append hmonth (by omega) (0x2d::d) (0x2d::zeroPadded 2 (utcDate now).2.2)
      simpa [textLess] using hfront
    · rw [eq_of_decimal_eq hm hM (by omega) (by omega)]
      have hlast := textLess_of_decimal_lt hd hD (by omega) (by omega)
      simpa [textLess,textLess_append_left] using hlast

end Calendar

end FastPki.License
