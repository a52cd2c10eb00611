import FastPki.Framework.Backtrack
import FastPki.Policy.Domains
import Mathlib.Algebra.Polynomial.Eval.Degree
import Mathlib.Analysis.SpecificLimits.Normed

namespace FastPki.Policy

open FastPki.X509 FastPki.Profile

/-- The loop of `check_cn` over the list, with the steps of the matcher. -/
def searchEntries (allowWildcard : Bool) (cn : Octets) : List Octets → Search
  | [] => ⟨false,0⟩
  | dom::doms =>
    if dom = [] || dom.head? = some 0x23 then searchEntries allowWildcard cn doms
    else ((Regex.seq (labelPrefix allowWildcard) (Regex.literal dom)).regexMatch cn).orElse
      (searchEntries allowWildcard cn doms)

/-- `check_cn` with the steps of the matcher. -/
def checkCnSearch (cfg : Config) (cn : Octets) (allowWildcard : Bool) : Search :=
  if cn = [] then ⟨false,0⟩
  else if dot ∉ cn then ⟨if asterisk ∈ cn then allowWildcard else true,0⟩
  else if cfg.allowedDomains = [] then ⟨true,0⟩
  else searchEntries allowWildcard cn cfg.allowedDomains

/-- The labels in front of the name that each alternative of the prefix reads: one letter or digit. -/
def ambiguousLabels (wildcard : Bool) (cn : Octets) : Nat :=
  ((cn.splitOn dot).dropLast.takeWhile (labelOk wildcard)).countP
    fun l => l.length = 1 && l.all isAlnum

/-- The steps are bounded by a polynomial in the length of the name times the length of the list. -/
def PolynomialOn (wildcard : Bool) (names : Set Octets) : Prop :=
  ∃ p : Polynomial ℕ,∀ (cfg : Config),∀ cn∈names,
    (checkCnSearch cfg cn wildcard).steps ≤
      p.eval cn.length*(cfg.allowedDomains.map List.length).sum

theorem searchEntries_found (allowWildcard : Bool) (cn : Octets) (doms : List Octets) :
    (searchEntries allowWildcard cn doms).found=doms.any fun dom =>
      dom ≠ [] && dom.head? ≠ some 0x23 &&
        (Pattern.read (entryPattern allowWildcard dom)).any fun re => re.isMatch cn := by
  simp only [entryPattern_isMatch]
  induction doms with
  | nil => rfl
  | cons dom doms ih =>
    rw [searchEntries,List.any_cons]
    split_ifs with hskip
    · have hunused : (decide (dom≠[]) && decide (dom.head?≠some 0x23))=false := by
        rcases Bool.or_eq_true_iff.mp hskip with h|h
        · simp [of_decide_eq_true h]
        · simp [of_decide_eq_true h]
      rw [ih,hunused]
      rfl
    · have hused : (decide (dom≠[]) && decide (dom.head?≠some 0x23))=true := by
        rw [Bool.or_eq_true,not_or,decide_eq_true_eq,decide_eq_true_eq] at hskip
        simp [hskip.1,hskip.2]
      rw [Search.orElse_found,Regex.regexMatch_found,ih,hused,Bool.true_and]

/-- The answer is the one of `check_cn`. -/
theorem checkCnSearch_found (cfg : Config) (cn : Octets) (allowWildcard : Bool) :
    (checkCnSearch cfg cn allowWildcard).found=checkCn cfg cn allowWildcard := by
  rw [checkCnSearch,checkCn]
  by_cases hempty : cn=[]
  · rw [if_pos hempty,if_pos hempty]
  rw [if_neg hempty,if_neg hempty]
  by_cases hdot : dot∉cn
  · rw [if_pos hdot,if_pos hdot]
  rw [if_neg hdot,if_neg hdot]
  by_cases hlist : cfg.allowedDomains=[]
  · rw [if_pos hlist,if_pos hlist]
  rw [if_neg hlist,if_neg hlist]
  exact searchEntries_found allowWildcard cn cfg.allowedDomains

section Labels

variable {wildcard : Bool}

theorem dot_notMem_of_labelOk {l : Octets} (h : labelOk wildcard l=true) : dot∉l := by
  intro hdot
  rcases Bool.or_eq_true_iff.mp h with h|h
  · rw [Bool.and_eq_true,List.all_eq_true] at h
    exact absurd (h.1 dot hdot) (by decide)
  · rw [Bool.and_eq_true,decide_eq_true_eq] at h
    rw [h.2,List.mem_singleton] at hdot
    exact absurd hdot (by decide)

/-- A label in front counts for itself. -/
theorem ambiguousLabels_label {l : Octets} (h : labelOk wildcard l=true) (rest : Octets) :
    ambiguousLabels wildcard (l++dot::rest)=
      (if (l.length = 1 && l.all isAlnum)=true then 1 else 0)+ambiguousLabels wildcard rest := by
  rw [ambiguousLabels,List.splitOn_append_cons_self_of_not_mem (dot_notMem_of_labelOk h),
    List.dropLast_cons_of_ne_nil (List.splitOn_ne_nil dot rest),List.takeWhile_cons_of_pos h,
    List.countP_cons,Nat.add_comm]
  rfl

/-- The name from the dot behind its first label on, where it has letters, digits and hyphens up to
there and a letter or digit at the end. -/
def afterLabel : Octets → Option Octets
  | [] => none
  | a::w =>
    if isAlnum a || a = hyphen then
      (if isAlnum a && w.head? = some dot then some w.tail else afterLabel w)
    else none

theorem afterLabel_eq_some {w rest : Octets} (h : afterLabel w=some rest) :
    ∃ l,labelOk false l=true ∧ w=l++dot::rest := by
  induction w with
  | nil => cases h
  | cons a w ih =>
    rw [afterLabel] at h
    split_ifs at h with hldh hend
    · rw [Bool.and_eq_true,decide_eq_true_eq] at hend
      obtain ⟨v,rfl⟩ := List.head?_eq_some_iff.mp hend.2
      obtain rfl := Option.some.inj h
      exact ⟨[a],by simp [labelOk,hend.1],rfl⟩
    · obtain ⟨l,hl,rfl⟩ := ih h
      refine ⟨a::l,?_,rfl⟩
      simp only [labelOk,Bool.false_and,Bool.or_false,Bool.and_eq_true] at hl ⊢
      refine ⟨by rw [List.all_cons,hldh,hl.1]; rfl,?_⟩
      cases l with
      | nil => exact absurd hl.2 (by simp)
      | cons b l => rw [List.getLast?_cons_cons]; exact hl.2

theorem afterLabel_label {l : Octets} (h : labelOk false l=true) (rest : Octets) :
    afterLabel (l++dot::rest)=some rest := by
  have hdot := dot_notMem_of_labelOk h
  simp only [labelOk,Bool.false_and,Bool.or_false,Bool.and_eq_true] at h
  induction l with
  | nil => exact absurd h.2 (by simp)
  | cons a l ih =>
    rw [List.all_cons,Bool.and_eq_true] at h
    rw [List.cons_append,afterLabel,if_pos h.1.1]
    cases l with
    | nil =>
      have ha : isAlnum a=true := h.2
      simp [ha]
    | cons b l =>
      have hb : b≠dot := fun hb => hdot (by simp [hb])
      rw [if_neg (by simp [hb])]
      rw [List.getLast?_cons_cons] at h
      exact ih (fun hmem => hdot (List.mem_cons_of_mem _ hmem)) ⟨h.1.2,h.2⟩

/-- What the first alternative leaves: one letter, digit or star and a dot are read. -/
def afterSingle (wildcard : Bool) : Octets → Option Octets
  | a::b::rest =>
    if (isAlnum a || (wildcard && a = asterisk)) && b = dot then some rest else none
  | _ => none

theorem afterSingle_eq_some {w rest : Octets} (h : afterSingle wildcard w=some rest) :
    ∃ a,labelOk wildcard [a]=true ∧ w=[a]++dot::rest := by
  match w with
  | a::b::v =>
    rw [afterSingle] at h
    split_ifs at h with hok
    rw [Bool.and_eq_true,decide_eq_true_eq] at hok
    obtain ⟨ha,rfl⟩ := hok
    obtain rfl := Option.some.inj h
    refine ⟨a,?_,rfl⟩
    rcases Bool.or_eq_true_iff.mp ha with ha|ha
    · simp [labelOk,ha]
    · rw [Bool.and_eq_true,decide_eq_true_eq] at ha
      simp [labelOk,ha.1,ha.2]

theorem labelOk_of_false {l : Octets} (h : labelOk false l=true) : labelOk wildcard l=true := by
  simp only [labelOk,Bool.false_and,Bool.or_false] at h
  rw [labelOk,h]
  rfl

/-- The name has a label in front, or none that counts. -/
theorem exists_label {w : Octets} (h : ambiguousLabels wildcard w≠0) :
    ∃ l rest,labelOk wildcard l=true ∧ w=l++dot::rest := by
  by_cases hdot : dot∈w
  · obtain ⟨l,rest,rfl,hl⟩ := List.eq_append_cons_of_mem hdot
    refine ⟨l,rest,?_,rfl⟩
    by_contra hbad
    rw [ambiguousLabels,List.splitOn_append_cons_self_of_not_mem hl,
      List.dropLast_cons_of_ne_nil (List.splitOn_ne_nil dot rest),
      List.takeWhile_cons_of_neg hbad] at h
    exact h rfl
  · rw [ambiguousLabels,List.splitOn_eq_singleton hdot] at h
    exact absurd rfl h

theorem ambiguousLabels_rest_le {l : Octets} (h : labelOk wildcard l=true) (rest : Octets) :
    ambiguousLabels wildcard rest ≤ ambiguousLabels wildcard (l++dot::rest) := by
  rw [ambiguousLabels_label h]
  exact Nat.le_add_left _ _

end Labels

section Steps

variable {wildcard : Bool} {k : Octets → Search} {w : Octets}

/-- `[a-zA-Z0-9]\.`, with the star among the letters where wildcards are allowed. -/
def single (wildcard : Bool) : Regex UInt8 :=
  .seq (.char fun c => isAlnum c || (wildcard && c = asterisk)) (.char (· = dot))

/-- `[a-zA-Z0-9\-]*[a-zA-Z0-9]\.` -/
def several : Regex UInt8 :=
  .seq (.star (.char fun c => isAlnum c || c = hyphen)) (.seq (.char isAlnum) (.char (· = dot)))

theorem single_steps_le : ((single wildcard).search w k).steps ≤
    2+((afterSingle wildcard w).elim 0 fun rest => (k rest).steps) := by
  match w with
  | [] => simp [single,Regex.search,afterSingle]
  | [a] =>
    simp only [single,Regex.search,afterSingle]
    split_ifs
    · simp
    · simp
  | a::b::rest =>
    simp only [single,Regex.search,afterSingle]
    by_cases ha : (isAlnum a || (wildcard && decide (a=asterisk)))=true
    · by_cases hb : b=dot
      · simp [ha,hb]
        omega
      · simp [ha,hb]
    · simp [ha]

/-- The longer alternative behind its loop. -/
theorem lastLetter_steps_le :
    ((Regex.seq (.char isAlnum) (.char (· = dot))).search w k).steps ≤ 2 ∨
      ∃ a rest,isAlnum a=true ∧ w=a::dot::rest ∧
        ((Regex.seq (.char isAlnum) (.char (· = dot))).search w k).steps=(k rest).steps+2 := by
  match w with
  | [] => exact Or.inl (by simp [Regex.search])
  | [a] =>
    left
    simp only [Regex.search]
    split_ifs
    · simp
    · simp
  | a::b::rest =>
    by_cases ha : isAlnum a=true
    · by_cases hb : b=dot
      · exact Or.inr ⟨a,rest,ha,by rw [hb],by simp [Regex.search,ha,hb]⟩
      · exact Or.inl (by simp [Regex.search,ha,hb])
    · exact Or.inl (by simp [Regex.search,ha])

/-- The loop over a label gives its letters back one by one; what follows is tried once. -/
theorem labelLoop_steps_le {n : Nat} (hn : w.length<n) :
    (Regex.loop (Regex.search (.char fun c => isAlnum c || c = hyphen))
      (fun v => (Regex.seq (.char isAlnum) (.char (· = dot))).search v k) n w).steps ≤
      4*(w.length+1)+((afterLabel w).elim 0 fun rest => (k rest).steps) := by
  induction w generalizing n with
  | nil =>
    obtain ⟨n,rfl⟩ := Nat.exists_eq_succ_of_ne_zero (by omega : n≠0)
    simp [Regex.loop,Regex.search,Search.orElse,afterLabel]
  | cons a v ih =>
    obtain ⟨n,rfl⟩ := Nat.exists_eq_succ_of_ne_zero (by omega : n≠0)
    rw [List.length_cons] at hn
    have hrest := ih (n := n) (by omega)
    rw [Regex.loop,Search.tick_steps,List.length_cons]
    refine (Nat.add_le_add_right (Search.orElse_steps_le _ _) 1).trans ?_
    by_cases hldh : (isAlnum a || decide (a=hyphen))=true
    · have hbody : ∀ c : Octets → Search,
          (Regex.search (.char fun c => isAlnum c || c = hyphen) (a::v) c).steps=(c v).steps+1 := by
        intro c
        simp [Regex.search,hldh]
      rw [hbody,if_pos (by simp),afterLabel,if_pos hldh]
      rcases lastLetter_steps_le (w := a::v) (k := k) with hlast|⟨b,rest,hb,hw,hlast⟩
      · split_ifs with hend
        · -- a letter before a dot: the loop ends there
          rw [Bool.and_eq_true,decide_eq_true_eq] at hend
          obtain ⟨u,rfl⟩ := List.head?_eq_some_iff.mp hend.2
          have hnone : afterLabel (dot::u)=none := rfl
          rw [hnone] at hrest
          simp only [Option.elim_none,Option.elim_some] at hrest ⊢
          omega
        · omega
      · obtain ⟨rfl,rfl⟩ := List.cons.inj hw
        have hnone : afterLabel (dot::rest)=none := rfl
        rw [hnone] at hrest
        rw [if_pos (by simp [hb]),hlast]
        simp only [Option.elim_none,Option.elim_some,List.tail_cons] at hrest ⊢
        omega
    · have hbody : ∀ c : Octets → Search,
          (Regex.search (.char fun c => isAlnum c || c = hyphen) (a::v) c).steps=1 := by
        intro c
        simp [Regex.search,hldh]
      have hlast : ((Regex.seq (.char isAlnum) (.char (· = dot))).search (a::v) k).steps=1 := by
        have ha : isAlnum a=false := by
          rw [Bool.or_eq_true,not_or] at hldh
          simpa using hldh.1
        simp [Regex.search,ha]
      rw [hbody,hlast]
      omega

theorem several_steps_le : (several.search w k).steps ≤
    4*(w.length+1)+((afterLabel w).elim 0 fun rest => (k rest).steps) :=
  labelLoop_steps_le (Nat.lt_succ_self _)

theorem single_steps_ge {rest : Octets} (h : afterSingle wildcard w=some rest) :
    (k rest).steps ≤ ((single wildcard).search w k).steps := by
  match w with
  | a::b::v =>
    rw [afterSingle] at h
    split_ifs at h with hok
    rw [Bool.and_eq_true,decide_eq_true_eq] at hok
    obtain rfl := Option.some.inj h
    simp only [single,Regex.search,hok.1,hok.2,decide_true,if_true,Search.tick_steps]
    omega

theorem labelLoop_steps_ge {rest : Octets} (h : afterLabel w=some rest)
    (hk : ∀ v,v<:+w → (k v).found=false) {n : Nat} (hn : w.length<n) :
    (k rest).steps ≤ (Regex.loop (Regex.search (.char fun c => isAlnum c || c = hyphen))
      (fun v => (Regex.seq (.char isAlnum) (.char (· = dot))).search v k) n w).steps := by
  induction w generalizing n with
  | nil => cases h
  | cons a v ih =>
    obtain ⟨n,rfl⟩ := Nat.exists_eq_succ_of_ne_zero (by omega : n≠0)
    rw [List.length_cons] at hn
    have htail : ∀ u,u<:+v → (k u).found=false := fun u hu => hk u (hu.trans (List.suffix_cons a v))
    rw [afterLabel] at h
    split_ifs at h with hldh hend
    · -- the letter before the dot fails further in, and is then tried as the last one
      rw [Bool.and_eq_true,decide_eq_true_eq] at hend
      obtain ⟨u,rfl⟩ := List.head?_eq_some_iff.mp hend.2
      obtain rfl := Option.some.inj h
      have hlast : ((Regex.seq (.char isAlnum) (.char (· = dot))).search (a::dot::u) k).steps=
          (k u).steps+2 := by simp [Regex.search,hend.1]
      have hfail := Regex.round_fails (.char fun c => isAlnum c || c = hyphen)
        (.char fun c => isAlnum c || c = hyphen) (fun y hy => Regex.search_fails
          (.seq (.char isAlnum) (.char (· = dot))) fun z hz => hk z (hz.trans hy)) hn
      rw [Regex.loop,Search.tick_steps,Search.orElse_steps _ hfail,hlast,List.tail_cons]
      omega
    · have hrest := ih h htail (n := n) (by omega)
      rw [Regex.loop,Search.tick_steps,Search.orElse]
      have hbody : ∀ c : Octets → Search,
          (Regex.search (.char fun c => isAlnum c || c = hyphen) (a::v) c).steps=(c v).steps+1 := by
        intro c
        simp [Regex.search,hldh]
      split_ifs
      · rw [hbody,if_pos (by simp)]
        omega
      · simp only [hbody]
        rw [if_pos (by simp)]
        omega

theorem several_steps_ge {rest : Octets} (h : afterLabel w=some rest)
    (hk : ∀ v,v<:+w → (k v).found=false) : (k rest).steps ≤ (several.search w k).steps :=
  labelLoop_steps_ge h hk (Nat.lt_succ_self _)

/-- One round beside what it leads to. -/
theorem round_steps_le {c : Octets → Search} {rest bound : Nat} (hk : (k w).steps ≤ rest)
    (hbound : 4*(w.length+1)+rest+4 ≤ bound) :
    ((((single wildcard).search w c).orElse (several.search w c)).tick.orElse (k w)).steps+1 ≤
      bound+(((afterSingle wildcard w).elim 0 fun v => (c v).steps)+
        ((afterLabel w).elim 0 fun v => (c v).steps)) := by
  have hsingle : ((single wildcard).search w c).steps ≤
      2+((afterSingle wildcard w).elim 0 fun v => (c v).steps) := single_steps_le
  have hseveral := several_steps_le (k := c) (w := w)
  have halt := Search.orElse_steps_le ((single wildcard).search w c) (several.search w c)
  have hor := Search.orElse_steps_le
    (((single wildcard).search w c).orElse (several.search w c)).tick (k w)
  rw [Search.tick_steps] at hor
  omega

/-- A label is read by both alternatives, by one of them, or by none; when by both, it counts. -/
theorem branches_le {cost : Octets → Nat} {size : Nat}
    (hnext : ∀ l v : Octets,w=l++dot::v → cost v ≤ 2^ambiguousLabels wildcard v*size) :
    (afterSingle wildcard w).elim 0 cost+(afterLabel w).elim 0 cost ≤
      2^ambiguousLabels wildcard w*size := by
  have hmono : ∀ l v : Octets,labelOk wildcard l=true → w=l++dot::v →
      cost v ≤ 2^ambiguousLabels wildcard w*size := by
    intro l v hok hw
    have hle : ambiguousLabels wildcard v ≤ ambiguousLabels wildcard w :=
      hw ▸ ambiguousLabels_rest_le hok v
    have hpow : 2^ambiguousLabels wildcard v ≤ 2^ambiguousLabels wildcard w :=
      Nat.pow_le_pow_right (by omega) hle
    exact (hnext l v hw).trans (Nat.mul_le_mul_right _ hpow)
  cases hs : afterSingle wildcard w with
  | none =>
    cases hl : afterLabel w with
    | none => exact Nat.zero_le _
    | some v =>
      obtain ⟨l,hok,hw⟩ := afterLabel_eq_some hl
      have hv := hmono l v (labelOk_of_false hok) hw
      simp only [Option.elim_none,Option.elim_some]
      omega
  | some v =>
    obtain ⟨a,hok,hw⟩ := afterSingle_eq_some hs
    cases hl : afterLabel w with
    | none =>
      have hv := hmono [a] v hok hw
      simp only [Option.elim_none,Option.elim_some]
      omega
    | some u =>
      have ha : isAlnum a=true := by
        rw [hw,List.singleton_append,afterLabel] at hl
        split_ifs at hl with hldh hend
        · exact (Bool.and_eq_true_iff.mp hend).1
        · cases hl
      have hu : u=v := by
        rw [hw,afterLabel_label (by simp [labelOk,ha])] at hl
        exact (Option.some.inj hl).symm
      have hcount : ambiguousLabels wildcard w=1+ambiguousLabels wildcard v := by
        rw [hw,ambiguousLabels_label hok]
        simp [ha]
      have htwice : 2^ambiguousLabels wildcard w*size=2*(2^ambiguousLabels wildcard v*size) := by
        rw [hcount,pow_add,pow_one,Nat.mul_assoc]
      have hv := hnext [a] v hw
      rw [hu]
      simp only [Option.elim_some]
      omega

/-- The loop over the labels, with what one round of it costs at most. -/
theorem prefixLoop_steps_le {rest bound : Nat} (hk : ∀ v,(k v).steps ≤ rest) {n : Nat}
    (hn : w.length<n) (hbound : 4*(w.length+1)+rest+4 ≤ bound) :
    (Regex.loop (Regex.search (.alt (single wildcard) several)) k n w).steps ≤
      2^ambiguousLabels wildcard w*((w.length+1)*bound) := by
  induction n generalizing w with
  | zero => exact absurd hn (Nat.not_lt_zero _)
  | succ n ih =>
    let c : Octets → Search := fun v =>
      if v.length < w.length then
        Regex.loop (Regex.search (.alt (single wildcard) several)) k n v
      else .fail
    have hnext : ∀ l v : Octets,w=l++dot::v →
        (c v).steps ≤ 2^ambiguousLabels wildcard v*(w.length*bound) := by
      intro l v hw
      have hlt : v.length<w.length := by
        rw [hw,List.length_append,List.length_cons]
        omega
      have hv := ih (w := v) (by omega) (by omega)
      change (if v.length < w.length then _ else _ : Search).steps ≤ _
      rw [if_pos hlt]
      exact hv.trans (Nat.mul_le_mul_left _ (Nat.mul_le_mul_right _ hlt))
    have hround : ((((single wildcard).search w c).orElse (several.search w c)).tick.orElse
        (k w)).steps+1 ≤ _ := round_steps_le (hk w) hbound
    have hbranches := branches_le hnext
    have hone : bound ≤ 2^ambiguousLabels wildcard w*bound :=
      Nat.le_mul_of_pos_left bound Nat.one_le_two_pow
    rw [Regex.loop,Search.tick_steps]
    calc ((((single wildcard).search w c).orElse (several.search w c)).tick.orElse (k w)).steps+1
        ≤ bound+2^ambiguousLabels wildcard w*(w.length*bound) := by omega
      _ ≤ 2^ambiguousLabels wildcard w*bound+2^ambiguousLabels wildcard w*(w.length*bound) := by
        omega
      _ = 2^ambiguousLabels wildcard w*((w.length+1)*bound) := by ring

/-- Where nothing matches, a label that both alternatives read is gone into twice. -/
theorem branches_ge {c : Octets → Search} {l v : Octets} (hok : labelOk wildcard l=true)
    (hw : w=l++dot::v) (hc : ∀ u,u<:+w → (c u).found=false)
    (hv : 2^ambiguousLabels wildcard v ≤ (c v).steps) :
    2^ambiguousLabels wildcard w ≤
      ((single wildcard).search w c).steps+(several.search w c).steps := by
  rw [hw,ambiguousLabels_label hok,← hw]
  by_cases hshort : ∃ a,l=[a]
  · obtain ⟨a,rfl⟩ := hshort
    have hsingle : afterSingle wildcard w=some v := by
      rw [hw,List.singleton_append,afterSingle,if_pos]
      simp only [labelOk,List.all_cons,List.all_nil,Bool.and_true,List.getLast?_singleton,
        Option.any_some,Bool.or_eq_true,Bool.and_eq_true,decide_eq_true_eq] at hok ⊢
      rcases hok with hok|⟨hwild,hstar⟩
      · exact ⟨Or.inl hok.2,trivial⟩
      · exact ⟨Or.inr ⟨hwild,by simpa using hstar⟩,trivial⟩
    have hfirst := single_steps_ge (k := c) hsingle
    by_cases ha : isAlnum a=true
    · have hlabel : afterLabel w=some v := by
        rw [hw]
        exact afterLabel_label (by simp [labelOk,ha]) v
      have hsecond := several_steps_ge hlabel hc
      rw [if_pos (by simp [ha]),pow_add,pow_one]
      omega
    · rw [if_neg (by simp [ha]),Nat.zero_add]
      omega
  · have hlong : labelOk false l=true := by
      rcases Bool.or_eq_true_iff.mp hok with h|h
      · simp only [labelOk,h,Bool.true_or]
      · rw [Bool.and_eq_true,decide_eq_true_eq] at h
        exact absurd ⟨asterisk,h.2⟩ hshort
    have hlabel : afterLabel w=some v := by
      rw [hw]
      exact afterLabel_label hlong v
    have hsecond := several_steps_ge hlabel hc
    have hone : ¬(l.length = 1 && l.all isAlnum)=true := by
      rw [Bool.and_eq_true,decide_eq_true_eq,List.length_eq_one_iff]
      exact fun h => hshort h.1
    rw [if_neg hone,Nat.zero_add]
    omega

/-- Where no reading of the labels is a match, all of them are searched. -/
theorem prefixLoop_steps_ge (hk : ∀ v,v<:+w → (k v).found=false) {n : Nat} (hn : w.length<n) :
    2^ambiguousLabels wildcard w ≤
      (Regex.loop (Regex.search (.alt (single wildcard) several)) k n w).steps := by
  induction n generalizing w with
  | zero => exact absurd hn (Nat.not_lt_zero _)
  | succ n ih =>
    by_cases hzero : ambiguousLabels wildcard w=0
    · rw [hzero,pow_zero,Regex.loop,Search.tick_steps]
      omega
    obtain ⟨l,v,hok,hw⟩ := exists_label hzero
    let c : Octets → Search := fun v =>
      if v.length < w.length then
        Regex.loop (Regex.search (.alt (single wildcard) several)) k n v
      else .fail
    have hlt : v.length<w.length := by
      rw [hw,List.length_append,List.length_cons]
      omega
    have hv : 2^ambiguousLabels wildcard v ≤ (c v).steps := by
      have hsub : v<:+w := hw ▸ (List.suffix_cons dot v).trans (List.suffix_append l _)
      change _ ≤ (if v.length < w.length then _ else _ : Search).steps
      rw [if_pos hlt]
      exact ih (fun u hu => hk u (hu.trans hsub)) (by omega)
    have hfail : ∀ r : Regex UInt8,(r.search w c).found=false := fun r =>
      Regex.round_fails _ r hk hn
    have hc : ∀ u,u<:+w → (c u).found=false := by
      intro u hu
      change (if u.length < w.length then _ else _ : Search).found=false
      split_ifs with hshort
      · exact Regex.loop_fails _ (fun y hy => hk y (hy.trans hu)) (by omega)
      · rfl
    have hround : (Regex.loop (Regex.search (.alt (single wildcard) several)) k (n+1) w).steps=
        ((single wildcard).search w c).steps+(several.search w c).steps+1+(k w).steps+1 := by
      rw [Regex.loop,Search.tick_steps,Search.orElse_steps _ (hfail _)]
      change ((((single wildcard).search w c).orElse (several.search w c)).tick).steps+
        (k w).steps+1=_
      rw [Search.tick_steps,Search.orElse_steps _ (hfail _)]
    have hbranches := branches_ge hok hw hc hv
    rw [hround]
    omega

end Steps

section Entry

variable {wildcard : Bool} {dom cn : Octets}

theorem entry_steps_le (hdom : dom≠[]) :
    ((Regex.seq (labelPrefix wildcard) (Regex.literal dom)).regexMatch cn).steps ≤
      2^ambiguousLabels wildcard cn*(11*(cn.length+1)^2)*dom.length := by
  have hlen : 0<dom.length := List.length_pos_of_ne_nil hdom
  have hend : ∀ v : Octets,(Regex.atEnd v).steps ≤ 1 := fun _ => le_rfl
  have hk : ∀ v,((Regex.literal dom).search v Regex.atEnd).steps ≤ dom.length+2 :=
    Regex.literal_steps_le hend dom
  refine (prefixLoop_steps_le hk (Nat.lt_succ_self cn.length) le_rfl).trans ?_
  have hround : 4*(cn.length+1)+(dom.length+2)+4 ≤ 11*(cn.length+1)*dom.length := by nlinarith
  calc 2^ambiguousLabels wildcard cn*((cn.length+1)*(4*(cn.length+1)+(dom.length+2)+4))
      ≤ 2^ambiguousLabels wildcard cn*((cn.length+1)*(11*(cn.length+1)*dom.length)) :=
        Nat.mul_le_mul_left _ (Nat.mul_le_mul_left _ hround)
    _ = 2^ambiguousLabels wildcard cn*(11*(cn.length+1)^2)*dom.length := by ring

/-- An entry that is no end of the name makes the matcher search every reading of its labels. -/
theorem entry_steps_ge (h : ¬dom<:+cn) : 2^ambiguousLabels wildcard cn ≤
    ((Regex.seq (labelPrefix wildcard) (Regex.literal dom)).regexMatch cn).steps := by
  refine prefixLoop_steps_ge (fun v hv => ?_) (Nat.lt_succ_self cn.length)
  rw [Bool.eq_false_iff]
  intro hfound
  obtain ⟨x,hx,y,rfl,hy⟩ := (Regex.search_found _).mp hfound
  obtain rfl := Regex.mem_lang_literal.mp hx
  have hnil : y=[] := by simpa [Regex.atEnd] using hy
  rw [hnil,List.append_nil] at hv
  exact h hv

theorem searchEntries_steps_le (doms : List Octets) : (searchEntries wildcard cn doms).steps ≤
    2^ambiguousLabels wildcard cn*(11*(cn.length+1)^2)*(doms.map List.length).sum := by
  induction doms with
  | nil => exact Nat.zero_le _
  | cons dom doms ih =>
    rw [searchEntries,List.map_cons,List.sum_cons,Nat.mul_add]
    split_ifs with hskip
    · exact ih.trans (Nat.le_add_left _ _)
    · have hdom : dom≠[] := by
        rintro rfl
        exact hskip rfl
      exact (Search.orElse_steps_le _ _).trans (Nat.add_le_add (entry_steps_le hdom) ih)

end Entry

/-- One entry of one letter, which is not the last of the name. -/
def strangerTo (cn : Octets) : Config :=
  ⟨2048,2048,256,[if cn.getLast? = some 0x61 then [0x62] else [0x61]],.unrestricted⟩

theorem strangerTo_steps (wildcard : Bool) {cn : Octets} (hdot : dot∈cn) :
    2^ambiguousLabels wildcard cn ≤ (checkCnSearch (strangerTo cn) cn wildcard).steps ∧
      ((strangerTo cn).allowedDomains.map List.length).sum=1 := by
  have hentry : ∀ c,cn.getLast?≠some c → ¬[c]<:+cn := by
    intro c hc hsuffix
    obtain ⟨front,rfl⟩ := hsuffix
    exact hc (by simp)
  have hsearch : ∀ c,c≠0x23 → ¬[c]<:+cn →
      2^ambiguousLabels wildcard cn ≤ (searchEntries wildcard cn [[c]]).steps := by
    intro c hc hstranger
    rw [searchEntries,if_neg (by simp [hc])]
    refine (entry_steps_ge hstranger).trans ?_
    rw [Search.orElse]
    split_ifs
    · exact le_rfl
    · exact Nat.le_add_right _ _
  rw [checkCnSearch,if_neg (List.ne_nil_of_mem hdot),if_neg (not_not.mpr hdot)]
  by_cases hlast : cn.getLast?=some 0x61
  · have hlist : (strangerTo cn).allowedDomains=[[0x62]] := by simp [strangerTo,hlast]
    rw [hlist,if_neg (by simp)]
    exact ⟨hsearch 0x62 (by decide) (hentry 0x62 (by simp [hlast])),rfl⟩
  · have hlist : (strangerTo cn).allowedDomains=[[0x61]] := by simp [strangerTo,hlast]
    rw [hlist,if_neg (by simp)]
    exact ⟨hsearch 0x61 (by decide) (hentry 0x61 hlast),rfl⟩

theorem ambiguousLabels_of_notMem {wildcard : Bool} {cn : Octets} (h : dot∉cn) :
    ambiguousLabels wildcard cn=0 := by
  rw [ambiguousLabels,List.splitOn_eq_singleton h]
  rfl

theorem checkCnSearch_steps_le (cfg : Config) (cn : Octets) (wildcard : Bool) :
    (checkCnSearch cfg cn wildcard).steps ≤ 2^ambiguousLabels wildcard cn*
      (11*(cn.length+1)^2)*(cfg.allowedDomains.map List.length).sum := by
  rw [checkCnSearch]
  split
  · exact Nat.zero_le _
  split
  · exact Nat.zero_le _
  split
  · exact Nat.zero_le _
  · exact searchEntries_steps_le cfg.allowedDomains

open Polynomial in
/-- On a kind of names the steps of the check are polynomial exactly where these names have no more
one-letter labels in front than the logarithm of a polynomial in their length. -/
theorem name_check_polynomial_iff (wildcard : Bool) (names : Set Octets) :
    PolynomialOn wildcard names ↔
      ∃ q : Polynomial ℕ,∀ cn∈names,2^ambiguousLabels wildcard cn ≤ q.eval cn.length := by
  constructor
  · rintro ⟨p,hp⟩
    refine ⟨p+1,fun cn hcn => ?_⟩
    rw [eval_add,eval_one]
    by_cases hdot : dot∈cn
    · obtain ⟨hge,hone⟩ := strangerTo_steps wildcard hdot
      have hle := hp (strangerTo cn) cn hcn
      rw [hone,Nat.mul_one] at hle
      omega
    · rw [ambiguousLabels_of_notMem hdot]
      exact Nat.le_add_left _ _
  · rintro ⟨q,hq⟩
    refine ⟨q*(11*(X+1)^2),fun cfg cn hcn => (checkCnSearch_steps_le cfg cn wildcard).trans ?_⟩
    simp only [eval_mul,eval_pow,eval_add,eval_X,eval_one,eval_ofNat]
    exact Nat.mul_le_mul_right _ (Nat.mul_le_mul_right _ (hq cn hcn))

/-- `a.a.a. .. b` with this many labels in front. -/
def oneLetterName (n : Nat) : Octets := (List.replicate n [0x61,dot]).flatten++[0x62]

theorem ambiguousLabels_oneLetterName (n : Nat) : ambiguousLabels false (oneLetterName n)=n := by
  induction n with
  | zero => rfl
  | succ n ih =>
    have hcons : oneLetterName (n+1)=[0x61]++dot::oneLetterName n := by
      simp [oneLetterName,List.replicate_succ]
    rw [hcons,ambiguousLabels_label (by decide),ih]
    simp [isAlnum,Nat.add_comm]

theorem eval_le_pow (p : Polynomial ℕ) {n : Nat} (hn : 1 ≤ n) :
    p.eval n ≤ p.eval 1*n^p.natDegree := by
  rw [Polynomial.eval_eq_sum_range,Polynomial.eval_eq_sum_range,Finset.sum_mul]
  refine Finset.sum_le_sum fun i hi => ?_
  rw [one_pow,Nat.mul_one]
  exact Nat.mul_le_mul_left _ (Nat.pow_le_pow_right hn (Finset.mem_range_succ_iff.mp hi))

/-- No polynomial stays above the powers of two. -/
theorem exists_eval_lt_two_pow (p : Polynomial ℕ) : ∃ n,0<n ∧ p.eval (2*n+1)<2^n := by
  let d := p.natDegree
  let c := p.eval 1*3^d
  have hlim := tendsto_pow_const_div_const_pow_of_one_lt d (one_lt_two (α := ℝ))
  have hpos : (0:ℝ)<1/(c+1) := by positivity
  have hev := (hlim.eventually (gt_mem_nhds hpos)).and (Filter.eventually_ge_atTop 1)
  obtain ⟨n,hlt,hn⟩ := hev.exists
  refine ⟨n,hn,(eval_le_pow p (by omega)).trans_lt ?_⟩
  have hbase : (2*n+1)^d ≤ 3^d*n^d := by
    rw [← mul_pow]
    exact Nat.pow_le_pow_left (by omega) d
  have hmul : (c:ℝ)*n^d<2^n := by
    have htwo : (0:ℝ)<2^n := by positivity
    rw [div_lt_div_iff₀ htwo (by positivity),one_mul] at hlt
    nlinarith [pow_nonneg (Nat.cast_nonneg (α := ℝ) n) d]
  calc p.eval 1*(2*n+1)^d ≤ p.eval 1*(3^d*n^d) := Nat.mul_le_mul_left _ hbase
    _ = c*n^d := by rw [← Nat.mul_assoc]
    _ < 2^n := by exact_mod_cast hmul

/-- Names of one-letter labels take more steps than any polynomial allows. -/
theorem name_check_exponential : ¬PolynomialOn false Set.univ := by
  rintro ⟨p,hp⟩
  obtain ⟨n,hpos,hn⟩ := exists_eval_lt_two_pow p
  obtain ⟨m,rfl⟩ : ∃ m,n=m+1 := ⟨n-1,by omega⟩
  have hdot : dot∈oneLetterName (m+1) := by simp [oneLetterName,List.replicate_succ]
  obtain ⟨hge,hone⟩ := strangerTo_steps false hdot
  have hle := hp (strangerTo (oneLetterName (m+1))) (oneLetterName (m+1)) trivial
  have hlen : (oneLetterName (m+1)).length=2*(m+1)+1 := by
    simp [oneLetterName]
    omega
  rw [hone,Nat.mul_one,hlen] at hle
  rw [ambiguousLabels_oneLetterName] at hge
  omega

end FastPki.Policy
