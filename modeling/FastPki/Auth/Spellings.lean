import FastPki.Auth.Login
import FastPki.Auth.Throttle

namespace FastPki.Auth
open X509

/-- A failure counted against `a` is counted against `b`: one key stands for both, and the next
attempt waits as long under either name. -/
def SameAccount (a b : Octets) : Prop :=
  acctKey a=acctKey b ∧ ∀ (s : LoginThrottle) (steady later : Int) (clientIp nextIp : Octets),
    (s.recordFailure steady a clientIp).retryAfter later b nextIp=
      (s.recordFailure steady a clientIp).retryAfter later a nextIp

/-- Both logins are of one form, and name the directory, and the user where it was refused, in the
same letters. -/
structure SameSpelling (a b : Octets) : Prop where
  form : backslash∈a ↔ backslash∈b
  domain : backslash∈a →
    lowerText (trimLeft (beforeFirst backslash a))=lowerText (trimLeft (beforeFirst backslash b))
  user : backslash∈a →
    lowerText (trimRight (afterFirst backslash a))=lowerText (trimRight (afterFirst backslash b))
  suffix : backslash∉a →
    lowerText (trimRight (afterLast atSign a))=lowerText (trimRight (afterLast atSign b))

theorem sameAccount_iff {a b : Octets} : SameAccount a b ↔ acctKey a=acctKey b := by
  refine and_iff_left_of_imp fun hkey s steady later clientIp nextIp => ?_
  simp only [LoginThrottle.retryAfter,LoginThrottle.keysOf,hkey]

section Trim

variable {c : UInt8} {a b : Octets}

theorem dropWhile_append_cons (hc : Ascii.isWhite c=false) :
    (a++c::b).dropWhile Ascii.isWhite=a.dropWhile Ascii.isWhite++c::b := by
  rw [List.dropWhile_append]
  cases a.dropWhile Ascii.isWhite with
  | nil => simp [hc]
  | cons x xs => simp

/-- What is not blank parts the blanks of the left from those of the right. -/
theorem trim_append_cons (hc : Ascii.isWhite c=false) :
    trimRight (trimLeft (a++c::b))=trimLeft a++c::trimRight b := by
  have hrev : (trimLeft a++c::b).reverse=b.reverse++c::(trimLeft a).reverse := by simp
  have hleft : trimLeft (a++c::b)=trimLeft a++c::b := dropWhile_append_cons hc
  rw [hleft,trimRight,Ascii.stripRight,hrev,dropWhile_append_cons hc]
  simp [trimRight,Ascii.stripRight]

theorem mem_of_mem_trimLeft (h : c∈trimLeft a) : c∈a := (List.dropWhile_suffix _).subset h

theorem mem_of_mem_trimRight (h : c∈trimRight a) : c∈a :=
  List.mem_reverse.mp ((List.dropWhile_suffix _).subset (List.mem_reverse.mp h))

end Trim

theorem lowerText_append_cons {c : UInt8} (hc : asciiLower c=c) (a b : Octets) :
    lowerText (a++c::b)=lowerText a++c::lowerText b := by
  rw [lowerText,List.map_append,List.map_cons,hc]
  rfl

/-- The key of `DOMAIN\user`. -/
theorem acctKey_backslash_inj {d u d' u' : Octets} (hd : backslash∉d) (hd' : backslash∉d') :
    acctKey (d++backslash::u)=acctKey (d'++backslash::u') ↔
      lowerText (trimLeft d)=lowerText (trimLeft d') ∧
        lowerText (trimRight u)=lowerText (trimRight u') := by
  have hblank : Ascii.isWhite backslash=false := by decide
  rw [acctKey,acctKey,List.append_cancel_left_eq,trim_append_cons hblank,trim_append_cons hblank]
  have hclear (x : Octets) (hx : backslash∉x) : backslash∉trimLeft x :=
    fun h => hx (mem_of_mem_trimLeft h)
  constructor
  · exact collationC.lower_inj_split (hclear d hd) (hclear d' hd')
  · intro h
    change lowerText _=lowerText _
    rw [lowerText_append_cons (by decide),lowerText_append_cons (by decide),h.1,h.2]

/-- The key of `user@domain`, for one user. -/
theorem acctKey_atSign_inj {u d d' : Octets} :
    acctKey (u++atSign::d)=acctKey (u++atSign::d') ↔
      lowerText (trimRight d)=lowerText (trimRight d') := by
  have hblank : Ascii.isWhite atSign=false := by decide
  rw [acctKey,acctKey,List.append_cancel_left_eq,trim_append_cons hblank,trim_append_cons hblank]
  change lowerText _=lowerText _ ↔ _
  rw [lowerText_append_cons (by decide),lowerText_append_cons (by decide),
    List.append_cancel_left_eq,List.cons.injEq,and_iff_right rfl]

/-- Only a login with a backslash has one in its key. -/
theorem acctKey_ne_of_backslash {a b : Octets} (ha : backslash∈a) (hb : backslash∉b) :
    acctKey a≠acctKey b := by
  intro h
  obtain ⟨hsplit,_⟩ := split_first ha
  have hblank : Ascii.isWhite backslash=false := by decide
  rw [acctKey,acctKey,List.append_cancel_left_eq,hsplit,trim_append_cons hblank] at h
  have hclear : backslash∉(trimRight (trimLeft b)).map asciiLower :=
    collationC.lower_clear _ fun hin => hb (mem_of_mem_trimLeft (mem_of_mem_trimRight hin))
  rw [← h] at hclear
  change backslash∉lowerText _ at hclear
  rw [lowerText_append_cons (by decide)] at hclear
  exact hclear (by simp)

/-- What a login without a backslash was split into says what it was, but for the spelling of the
domain. -/
theorem splitQualifiedLogin_atSign {login : Octets} (providers : List Provider)
    (hb : backslash∉login) :
    splitQualifiedLogin login providers=⟨[],login⟩ ∨
      (splitQualifiedLogin login providers).provider≠[] ∧
        login=(splitQualifiedLogin login providers).user++atSign::afterLast atSign login := by
  rw [splitQualifiedLogin,if_neg hb]
  split_ifs with hat
  · exact Or.inr ⟨hat.2.2,(split_last hat.1).1⟩
  · exact Or.inl rfl

/-- Two logins of one account share their key exactly when they are spelled alike. -/
theorem same_account_iff_same_spelling (providers : List Provider) (a b : Octets)
    (h : splitQualifiedLogin a providers=splitQualifiedLogin b providers) :
    SameAccount a b ↔ SameSpelling a b := by
  rw [sameAccount_iff]
  by_cases ha : backslash∈a
  · by_cases hb : backslash∈b
    · obtain ⟨hsa,hda⟩ := split_first ha
      obtain ⟨hsb,hdb⟩ := split_first hb
      nth_rewrite 1 [hsa,hsb]
      rw [acctKey_backslash_inj hda hdb]
      constructor
      · intro hparts
        exact ⟨iff_of_true ha hb,fun _ => hparts.1,fun _ => hparts.2,fun hn => absurd ha hn⟩
      · intro hspell
        exact ⟨hspell.domain ha,hspell.user ha⟩
    · refine iff_of_false (acctKey_ne_of_backslash ha hb) fun hspell => ?_
      exact hb (hspell.form.mp ha)
  · by_cases hb : backslash∈b
    · refine iff_of_false (acctKey_ne_of_backslash hb ha).symm fun hspell => ?_
      exact ha (hspell.form.mpr hb)
    · have hspell : SameSpelling a b ↔
          lowerText (trimRight (afterLast atSign a))=lowerText (trimRight (afterLast atSign b)) := by
        refine ⟨fun hs => hs.suffix ha,fun hs => ?_⟩
        exact ⟨iff_of_false ha hb,fun hin => absurd hin ha,fun hin => absurd hin ha,fun _ => hs⟩
      rw [hspell]
      obtain hpa|⟨hia,hsa⟩ := splitQualifiedLogin_atSign providers ha
      · obtain hpb|⟨hib,_⟩ := splitQualifiedLogin_atSign providers hb
        · rw [hpa,hpb] at h
          have hab : a=b := (QualifiedLogin.mk.inj h).2
          rw [hab]
          simp
        · rw [← h,hpa] at hib
          exact absurd rfl hib
      · obtain hpb|⟨_,hsb⟩ := splitQualifiedLogin_atSign providers hb
        · rw [h,hpb] at hia
          exact absurd rfl hia
        · rw [← h] at hsb
          nth_rewrite 1 [hsa,hsb]
          exact acctKey_atSign_inj

theorem same_account_letter_case :
    splitQualifiedLogin (octets "CORP\\alice") [contoso]=
      splitQualifiedLogin (octets "corp\\alice") [contoso] ∧
    SameAccount (octets "CORP\\alice") (octets "corp\\alice") := by
  have hsplit : splitQualifiedLogin (octets "CORP\\alice") [contoso]=
      splitQualifiedLogin (octets "corp\\alice") [contoso] := by decide
  refine ⟨hsplit,(same_account_iff_same_spelling [contoso] _ _ hsplit).mpr ?_⟩
  exact ⟨by decide,by decide,by decide,by decide⟩

/-- Six guesses under the NetBIOS name cost the next one under the DNS root nothing. -/
theorem same_account_two_keys :
    splitQualifiedLogin (octets "CORP\\alice") [contoso]=
      splitQualifiedLogin (octets "alice@corp.contoso.com") [contoso] ∧
    ¬SameAccount (octets "CORP\\alice") (octets "alice@corp.contoso.com") ∧
    (let guess := (LoginThrottle.Op.recordFailure (octets "CORP\\alice") [],0)
      let s := run LoginThrottle.step .init (List.replicate 6 guess)
      s.retryAfter 0 (octets "CORP\\alice") []=1 ∧
        s.retryAfter 0 (octets "alice@corp.contoso.com") []=0) := by
  refine ⟨by decide,fun h => ?_,by decide⟩
  exact absurd h.1 (by decide)

end FastPki.Auth
