import FastPki.Policy.Issuance

namespace FastPki.Policy

open FastPki.X509 FastPki.Profile

/-- A label of a host name; with the permission for wildcards the star alone is one. -/
def labelOk (wildcard : Bool) (l : Octets) : Bool :=
  ((l.all fun c => isAlnum c || c = hyphen) && l.getLast?.any isAlnum) ||
    (wildcard && l = [asterisk])

/-- An entry of the list that is neither empty nor a comment. -/
def usable (dom : Octets) : Bool := dom ≠ [] && dom.head? ≠ some 0x23

/-- The domain behind any number of labels, each with its dot. -/
def Under (wildcard : Bool) (dom cn : Octets) : Prop :=
  ∃ labels : List Octets,(∀ l∈labels,labelOk wildcard l=true) ∧
    cn=labels.flatMap (·++[dot])++dom

/-- A label that is the star alone. -/
def HasStar (name : Octets) : Prop := [asterisk]∈name.splitOn dot

instance (name : Octets) : Decidable (HasStar name) := inferInstanceAs (Decidable (_∈_))

section Pattern

/-- A character with its backslash, where it needs one, is read as itself. -/
theorem scan_escaped (c : UInt8) :
    Pattern.scan .plain (if metaCharacters.any (· = c) then [0x5c,c] else [c])=
      some (.plain,[.char c]) := by
  have hmeta : metaCharacters=[0x2e,0x5e,0x24,0x7c,0x28,0x29,0x5b,0x5d,0x7b,0x7d,0x2a,0x2b,0x3f,0x5c] := by
    decide +kernel
  split_ifs with hc
  · have hself : Pattern.standsForItself c=true := by
      have hall : metaCharacters.all Pattern.standsForItself=true := by
        rw [hmeta]
        rfl
      rw [List.any_eq_true] at hc
      obtain ⟨d,hd,heq⟩ := hc
      rw [← of_decide_eq_true heq]
      exact List.all_eq_true.mp hall d hd
    simp [Pattern.scan,Pattern.scanChar,Pattern.plainChar,hself]
  · rw [hmeta] at hc
    simp only [List.any_cons,List.any_nil,Bool.or_eq_true,decide_eq_true_eq,not_or] at hc
    simp [Pattern.scan,Pattern.scanChar,Pattern.plainChar,Ne.symm,hc,eq_comm (a := c)]

/-- The escaped entry is read as the entry. -/
theorem scan_regexEscape (dom : Octets) :
    Pattern.scan .plain (regexEscape dom)=some (.plain,dom.map .char) := by
  induction dom with
  | nil => rfl
  | cons c dom ih =>
    rw [regexEscape,List.flatMap_cons,Pattern.scan_append (scan_escaped c)]
    rw [regexEscape] at ih
    rw [ih]
    rfl

/-- The tokens of the labels. -/
def prefixTokens (wildcard : Bool) : List Pattern.Token :=
  let alnum : List (UInt8 × UInt8) := [(0x61,0x7a),(0x41,0x5a),(0x30,0x39)]
  [.opening,.cls false (alnum++if wildcard then [(0x2a,0x2a)] else []),.char dot,.bar,
    .cls false (alnum++[(0x2d,0x2d)]),.star,.cls false alnum,.char dot,.closing,.star]

theorem tokens_entryPattern (wildcard : Bool) (dom : Octets) :
    Pattern.tokens (entryPattern wildcard dom)=
      some (.caret::(prefixTokens wildcard++dom.map .char++[.dollar])) := by
  have hlabels : Pattern.scan .plain (octets "^"++labelPattern wildcard)=
      some (.plain,.caret::prefixTokens wildcard) := by
    cases wildcard with
    | false => decide +kernel
    | true => decide +kernel
  have hentry : Pattern.tokens (regexEscape dom++octets "$")=some (dom.map .char++[.dollar]) :=
    Pattern.tokens_append (scan_regexEscape dom) (by decide +kernel)
  rw [entryPattern,List.append_assoc,List.append_assoc (prefixTokens wildcard)]
  exact Pattern.tokens_append hlabels hentry

theorem inRanges_alnum : Pattern.inRanges false [(0x61,0x7a),(0x41,0x5a),(0x30,0x39)]=isAlnum := by
  funext c
  simp [Pattern.inRanges,isAlnum,Bool.or_assoc]

theorem inRanges_alnum_or (d : UInt8) :
    Pattern.inRanges false [(0x61,0x7a),(0x41,0x5a),(0x30,0x39),(d,d)]=
      fun c => isAlnum c || decide (c = d) := by
  funext c
  have hself : (decide (d≤c) && decide (c≤d))=decide (c=d) := by
    rw [Bool.eq_iff_iff]
    simp only [Bool.and_eq_true,decide_eq_true_eq]
    constructor
    · exact fun h => UInt8.le_antisymm h.2 h.1
    · rintro rfl
      exact ⟨UInt8.le_refl _,UInt8.le_refl _⟩
  simp [Pattern.inRanges,isAlnum,Bool.or_assoc,hself]

theorem parse_labels (wildcard : Bool) (ts : List Pattern.Token) :
    Pattern.parse [] Pattern.Group.new (prefixTokens wildcard++ts)=
      Pattern.parse [] ⟨[],[labelPrefix wildcard],false⟩ ts := by
  have hfirst : Pattern.inRanges false
      ([(0x61,0x7a),(0x41,0x5a),(0x30,0x39)]++if wildcard then [(0x2a,0x2a)] else [])=
        fun c => isAlnum c || (wildcard && decide (c = asterisk)) := by
    cases wildcard with
    | false => simpa using inRanges_alnum
    | true =>
      simp only [Bool.true_and]
      exact inRanges_alnum_or asterisk
  rw [labelPrefix,← hfirst,← inRanges_alnum_or hyphen,← inRanges_alnum]
  rfl

/-- The pattern of an entry is well formed: the labels, and then the entry. -/
theorem read_entryPattern (wildcard : Bool) (dom : Octets) :
    Pattern.read (entryPattern wildcard dom)=
      some (Pattern.concat (labelPrefix wildcard::dom.map fun c => .char (· = c))) := by
  rw [Pattern.read,tokens_entryPattern,Option.bind_some,Pattern.dropAnchors_anchored,parse_labels,
    ← List.append_nil (dom.map _),Pattern.parse_chars]
  obtain ⟨halt,hterms⟩ := Pattern.foldl_atom ⟨[],[labelPrefix wildcard],false⟩ dom
  simp [Pattern.parse,Pattern.Group.regex,halt,hterms]

/-- The pattern matches what the labels and the entry, put together, match. -/
theorem entryPattern_isMatch (wildcard : Bool) (dom cn : Octets) :
    ((Pattern.read (entryPattern wildcard dom)).any fun re => re.isMatch cn)=
      (Regex.seq (labelPrefix wildcard) (Regex.literal dom)).isMatch cn := by
  rw [read_entryPattern,Option.any_some,Bool.eq_iff_iff,Regex.isMatch_iff,Regex.isMatch_iff]
  rw [Pattern.lang_concat,List.map_cons,List.prod_cons,Pattern.lang_chars]
  rfl

end Pattern

section Labels

variable {wildcard : Bool} {w dom cn : Octets}

theorem mem_lang_dot : w∈(Regex.char fun c : UInt8 => decide (c = dot)).lang ↔ w=[dot] := by
  rw [Regex.mem_lang_char]
  simp

/-- The letter or star of the first alternative. -/
theorem mem_lang_single :
    w∈(Regex.char fun c : UInt8 => isAlnum c || (wildcard && c = asterisk)).lang ↔
      ∃ c,w=[c] ∧ (isAlnum c=true ∨ (wildcard=true ∧ c=asterisk)) := by
  rw [Regex.mem_lang_char]
  simp [and_comm]

/-- The longer labels of the second. -/
theorem mem_lang_ldh : w∈(Regex.seq (.star (.char fun c => isAlnum c || c = hyphen))
    (.seq (.char isAlnum) (.char (· = dot)))).lang ↔
      ∃ l,((l.all fun c => isAlnum c || c = hyphen) && l.getLast?.any isAlnum)=true ∧
        w=l++[dot] := by
  rw [Regex.mem_lang_seq]
  constructor
  · rintro ⟨u,hu,v,hv,rfl⟩
    rw [Regex.mem_lang_star_char] at hu
    obtain ⟨x,hx,y,hy,rfl⟩ := Regex.mem_lang_seq.mp hv
    obtain ⟨c,hc,rfl⟩ := Regex.mem_lang_char.mp hx
    rw [mem_lang_dot.mp hy]
    have hall : ((u++[c]).all fun c => isAlnum c || decide (c = hyphen))=true := by
      rw [List.all_append,List.all_eq_true.mpr hu]
      simp [hc]
    exact ⟨u++[c],by simp [hall,hc],by simp⟩
  · rintro ⟨l,hl,rfl⟩
    rw [Bool.and_eq_true,List.all_eq_true] at hl
    obtain ⟨hall,hlast⟩ := hl
    obtain ⟨c,hc,halnum⟩ := (Option.any_eq_true ..).mp hlast
    obtain ⟨u,rfl⟩ := List.getLast?_eq_some_iff.mp hc
    refine ⟨u,?_,[c]++[dot],?_,by simp⟩
    · exact Regex.mem_lang_star_char.mpr fun a ha => hall a (List.mem_append_left _ ha)
    · refine Regex.mem_lang_seq.mpr ⟨[c],Regex.mem_lang_char.mpr ⟨c,halnum,rfl⟩,[dot],?_,rfl⟩
      exact mem_lang_dot.mpr rfl

/-- Both alternatives of the prefix are a label and its dot. -/
theorem mem_lang_label : w∈(Regex.alt
    (.seq (.char fun c => isAlnum c || (wildcard && c = asterisk)) (.char (· = dot)))
    (.seq (.star (.char fun c => isAlnum c || c = hyphen))
      (.seq (.char isAlnum) (.char (· = dot))))).lang ↔
      ∃ l,labelOk wildcard l=true ∧ w=l++[dot] := by
  rw [Regex.mem_lang_alt,Regex.mem_lang_seq,mem_lang_ldh]
  constructor
  · rintro (⟨u,hu,v,hv,rfl⟩|⟨l,hl,rfl⟩)
    · obtain ⟨c,rfl,hc⟩ := mem_lang_single.mp hu
      rw [mem_lang_dot.mp hv]
      refine ⟨[c],?_,rfl⟩
      rcases hc with hc|⟨hwild,rfl⟩
      · simp [labelOk,hc]
      · simp [labelOk,hwild]
    · exact ⟨l,Bool.or_eq_true_iff.mpr (Or.inl hl),rfl⟩
  · rintro ⟨l,hl,rfl⟩
    rcases Bool.or_eq_true_iff.mp hl with hl|hl
    · exact Or.inr ⟨l,hl,rfl⟩
    · simp only [Bool.and_eq_true,decide_eq_true_eq] at hl
      obtain ⟨hwild,rfl⟩ := hl
      exact Or.inl ⟨[asterisk],mem_lang_single.mpr ⟨asterisk,rfl,Or.inr ⟨hwild,rfl⟩⟩,[dot],
        mem_lang_dot.mpr rfl,rfl⟩

theorem mem_lang_labelPrefix : w∈(labelPrefix wildcard).lang ↔
    ∃ labels : List Octets,(∀ l∈labels,labelOk wildcard l=true) ∧ w=labels.flatMap (·++[dot]) := by
  rw [labelPrefix,Regex.mem_lang_star]
  constructor
  · rintro ⟨ws,rfl,hws⟩
    induction ws with
    | nil => exact ⟨[],by simp,rfl⟩
    | cons v ws ih =>
      obtain ⟨labels,hlabels,hflat⟩ := ih fun y hy => hws y (List.mem_cons_of_mem _ hy)
      obtain ⟨l,hl,rfl⟩ := mem_lang_label.mp (hws v List.mem_cons_self)
      refine ⟨l::labels,List.forall_mem_cons.mpr ⟨hl,hlabels⟩,?_⟩
      rw [List.flatten_cons,hflat,List.flatMap_cons]
  · rintro ⟨labels,hlabels,rfl⟩
    refine ⟨labels.map (·++[dot]),rfl,fun y hy => ?_⟩
    obtain ⟨l,hl,rfl⟩ := List.mem_map.mp hy
    exact mem_lang_label.mpr ⟨l,hlabels l hl,rfl⟩

/-- The pattern of an entry matches the names under its domain. -/
theorem isMatch_entry : (Regex.seq (labelPrefix wildcard) (Regex.literal dom)).isMatch cn=true ↔
    Under wildcard dom cn := by
  rw [Regex.isMatch_iff,Regex.mem_lang_seq]
  constructor
  · rintro ⟨u,hu,v,hv,rfl⟩
    obtain ⟨labels,hlabels,rfl⟩ := mem_lang_labelPrefix.mp hu
    rw [Regex.mem_lang_literal.mp hv]
    exact ⟨labels,hlabels,rfl⟩
  · rintro ⟨labels,hlabels,rfl⟩
    exact ⟨_,mem_lang_labelPrefix.mpr ⟨labels,hlabels,rfl⟩,dom,Regex.mem_lang_literal.mpr rfl,rfl⟩

end Labels

/-- A dotted name is approved where an entry in use has it under its domain. -/
theorem any_entry_iff {doms : List Octets} {wildcard : Bool} {cn : Octets} :
    (doms.any fun dom => dom ≠ [] && dom.head? ≠ some 0x23 &&
      (Pattern.read (entryPattern wildcard dom)).any fun re => re.isMatch cn)=true ↔
      ∃ dom∈doms,usable dom=true ∧ Under wildcard dom cn := by
  simp only [entryPattern_isMatch]
  rw [List.any_eq_true]
  constructor
  · rintro ⟨dom,hdom,hmatch⟩
    rw [Bool.and_eq_true] at hmatch
    exact ⟨dom,hdom,hmatch.1,isMatch_entry.mp hmatch.2⟩
  · rintro ⟨dom,hdom,husable,hunder⟩
    exact ⟨dom,hdom,Bool.and_eq_true_iff.mpr ⟨husable,isMatch_entry.mpr hunder⟩⟩

/-- Before an entry of the list a name has labels, and nothing but labels. -/
theorem check_cn_on_label_boundaries (cfg : Config) (cn : Octets) (wildcard : Bool)
    (hlist : cfg.allowedDomains≠[]) (hdot : dot∈cn) :
    checkCn cfg cn wildcard=true ↔
      ∃ dom∈cfg.allowedDomains,usable dom=true ∧ Under wildcard dom cn := by
  have hne : cn≠[] := List.ne_nil_of_mem hdot
  rw [checkCn,if_neg hne,if_neg (not_not.mpr hdot),if_neg hlist]
  exact any_entry_iff

/-- The configuration that approves `example.com` alone. -/
def exampleDomain : Config := ⟨2048,2048,256,[octets "example.com"],.unrestricted⟩

theorem check_cn_not_inside_label :
    checkCn exampleDomain (octets "evil-example.com") false=false ∧
    (checkCn exampleDomain (octets "www.example.com") false=true ↔
      ∃ dom∈exampleDomain.allowedDomains,usable dom=true ∧
        Under false dom (octets "www.example.com")) :=
  ⟨by decide +kernel,
    check_cn_on_label_boundaries exampleDomain (octets "www.example.com") false
      (by decide) (by decide)⟩

end FastPki.Policy
