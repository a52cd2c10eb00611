import FastPki.Framework.DistinguishedName

namespace FastPki.Rfc4515

open Rfc4514 (esc equals keychar attributeType hexPair)

def lparen : UInt8 := 0x28
def rparen : UInt8 := 0x29
def asterisk : UInt8 := 0x2a
def colon : UInt8 := 0x3a

inductive Filter where
  | and (fs : List Filter)
  | or (fs : List Filter)
  | not (f : Filter)
  | equality (attr value : List UInt8)
  | approx (attr value : List UInt8)
  | greaterOrEqual (attr value : List UInt8)
  | lessOrEqual (attr value : List UInt8)
  | present (attr : List UInt8)
  | substrings (attr : List UInt8) (parts : List (List UInt8))
  | extensible (attr : Option (List UInt8)) (dnAttrs : Bool) (rule : Option (List UInt8))
    (value : List UInt8)

/-- What may stand for itself in an assertion value. -/
def normal (c : UInt8) : Bool := c ∉ [0x00,lparen,rparen,asterisk,esc]

/-- The octets of an assertion value; a backslash stands before two digits. -/
def assertionValue : List UInt8 → Option (List UInt8)
  | [] => some []
  | c::rest =>
    if c = esc then
      match rest with
      | h::l::rest => (hexPair h l).bind fun b => (assertionValue rest).map (b::·)
      | _ => none
    else if normal c then (assertionValue rest).map (c::·)
    else none

/-- A type with options. -/
def attributeDescription (s : List UInt8) : Bool :=
  match s.splitOn 0x3b with
  | [] => false
  | type::options => attributeType type && options.all fun o => o ≠ [] && o.all keychar

def dnKeyword (s : List UInt8) : Bool :=
  s = [0x64,0x6e] || s = [0x44,0x6e] || s = [0x64,0x4e] || s = [0x44,0x4e]

/-- An extensible match: an attribute, a matching rule or both, and whether the DN counts. -/
def extensibleOf (names value : List UInt8) : Option Filter :=
  match names.splitOn colon with
  | [attr] => if attributeDescription attr then some (.extensible (some attr) false none value) else none
  | [attr,x] =>
    if attr = [] then if attributeType x then some (.extensible none false (some x) value) else none
    else if !attributeDescription attr then none
    else if dnKeyword x then some (.extensible (some attr) true none value)
    else if attributeType x then some (.extensible (some attr) false (some x) value)
    else none
  | [attr,d,x] =>
    if !dnKeyword d || !attributeType x then none
    else if attr = [] then some (.extensible none true (some x) value)
    else if attributeDescription attr then some (.extensible (some attr) true (some x) value)
    else none
  | _ => none

def simple (mk : List UInt8 → List UInt8 → Filter) (attr value : List UInt8) : Option Filter :=
  if attributeDescription attr then (assertionValue value).map (mk attr) else none

/-- What an item asserts, by the end of what stands before its first `=`. -/
def itemWith (lhs rhs : List UInt8) : Option Filter :=
  if lhs.getLast? = some 0x7e then simple .approx lhs.dropLast rhs
  else if lhs.getLast? = some 0x3e then simple .greaterOrEqual lhs.dropLast rhs
  else if lhs.getLast? = some 0x3c then simple .lessOrEqual lhs.dropLast rhs
  else if lhs.getLast? = some colon then (assertionValue rhs).bind (extensibleOf lhs.dropLast)
  else if !attributeDescription lhs then none
  else if rhs = [asterisk] then some (.present lhs)
  else if asterisk ∈ rhs then ((rhs.splitOn asterisk).mapM assertionValue).map (.substrings lhs)
  else simple .equality lhs rhs

def itemOf (text : List UInt8) : Option Filter :=
  if equals ∉ text then none
  else itemWith (text.takeWhile (· ≠ equals)) ((text.dropWhile (· ≠ equals)).drop 1)

inductive Op where
  | and | or | not

/-- A list has one filter at least, and a negation has one. -/
def Op.build : Op → List Filter → Option Filter
  | .and,fs => if fs.isEmpty then none else some (.and fs)
  | .or,fs => if fs.isEmpty then none else some (.or fs)
  | .not,[f] => some (.not f)
  | .not,_ => none

/-- Between two filters, behind an opening parenthesis, or inside of an item. -/
inductive Mode where
  | gap
  | opened
  | item (text : List UInt8)

/-- The filters that are open, the inner one first, each with what it has so far, and the filters
outside of all of them. -/
structure State where
  mode : Mode
  frames : List (Op × List Filter)
  bottom : List Filter

def State.add (s : State) (f : Filter) : State :=
  match s.frames with
  | [] => ⟨.gap,[],s.bottom++[f]⟩
  | (op,fs)::rest => ⟨.gap,(op,fs++[f])::rest,s.bottom⟩

def State.enter (s : State) (op : Op) : State := ⟨.gap,(op,[])::s.frames,s.bottom⟩

def State.close (s : State) : Option State :=
  match s.frames with
  | [] => none
  | (op,fs)::rest => (op.build fs).map (State.add ⟨.gap,rest,s.bottom⟩)

def step (s : State) (c : UInt8) : Option State :=
  match s.mode with
  | .gap => if c = lparen then some { s with mode := .opened } else if c = rparen then s.close else none
  | .opened =>
    if c = 0x26 then some (s.enter .and)
    else if c = 0x7c then some (s.enter .or)
    else if c = 0x21 then some (s.enter .not)
    else if c = lparen ∨ c = rparen then none
    else some { s with mode := .item [c] }
  | .item text =>
    if c = rparen then (itemOf text).map s.add
    else if c = lparen then none
    else some { s with mode := .item (text++[c]) }

def readFrom (s : State) (text : List UInt8) : Option State := text.foldlM step s

/-- A sequence of filters in their string form. -/
def readFilters (text : List UInt8) : Option (List Filter) :=
  if !validUtf8 text then none
  else match readFrom ⟨.gap,[],[]⟩ text with
    | some ⟨.gap,[],fs⟩ => some fs
    | _ => none

def readFilter (text : List UInt8) : Option Filter :=
  match readFilters text with
  | some [f] => some f
  | _ => none

theorem readFrom_append (s : State) (a b : List UInt8) :
    readFrom s (a++b)=(readFrom s a).bind fun s' => readFrom s' b := List.foldlM_append

theorem readFrom_cons (s : State) (c : UInt8) (t : List UInt8) :
    readFrom s (c::t)=(step s c).bind fun s' => readFrom s' t := List.foldlM_cons

section Graft

/-- The same state inside of a filter that is open. -/
def State.graft (op : Op) (before : List Filter) (outer : List (Op × List Filter))
    (bottom : List Filter) (s : State) : State :=
  ⟨s.mode,s.frames++(op,before++s.bottom)::outer,bottom⟩

variable {op : Op} {before bottom : List Filter} {outer : List (Op × List Filter)} {s s' : State}

theorem add_graft (f : Filter) :
    (s.graft op before outer bottom).add f=(s.add f).graft op before outer bottom := by
  obtain ⟨mode,frames,fs⟩ := s
  cases frames with
  | nil => simp [State.graft,State.add]
  | cons frame frames => simp [State.graft,State.add]

theorem close_graft (h : s.close=some s') :
    (s.graft op before outer bottom).close=some (s'.graft op before outer bottom) := by
  obtain ⟨mode,frames,fs⟩ := s
  cases frames with
  | nil => cases h
  | cons frame frames =>
    obtain ⟨f,hf,rfl⟩ := Option.map_eq_some_iff.mp h
    change (frame.1.build frame.2).map _=_
    rw [hf,← add_graft]
    rfl

theorem step_graft {c : UInt8} (h : step s c=some s') :
    step (s.graft op before outer bottom) c=some (s'.graft op before outer bottom) := by
  obtain ⟨mode,frames,fs⟩ := s
  cases mode with
  | gap =>
    simp only [step,State.graft] at h ⊢
    split_ifs at h ⊢
    · obtain rfl := Option.some.inj h
      rfl
    · exact close_graft h
  | opened =>
    simp only [step,State.graft] at h ⊢
    split_ifs at h ⊢ <;> (obtain rfl := Option.some.inj h; rfl)
  | item text =>
    simp only [step,State.graft] at h ⊢
    split_ifs at h ⊢
    · obtain ⟨f,hf,rfl⟩ := Option.map_eq_some_iff.mp h
      rw [hf]
      exact congrArg some (add_graft (s := ⟨.item text,frames,fs⟩) f)
    · obtain rfl := Option.some.inj h
      rfl

/-- What reads as filters on its own, reads as the same filters inside of another. -/
theorem readFrom_graft {text : List UInt8} (h : readFrom s text=some s') :
    readFrom (s.graft op before outer bottom) text=some (s'.graft op before outer bottom) := by
  induction text generalizing s with
  | nil =>
    obtain rfl := Option.some.inj h
    rfl
  | cons c text ih =>
    rw [readFrom_cons] at h ⊢
    obtain ⟨mid,hmid,hrest⟩ := Option.bind_eq_some_iff.mp h
    rw [step_graft hmid]
    exact ih hrest

theorem readFrom_readFilters {text : List UInt8} {fs : List Filter}
    (h : readFilters text=some fs) :
    validUtf8 text=true ∧ readFrom ⟨.gap,(op,before)::outer,bottom⟩ text=
      some ⟨.gap,(op,before++fs)::outer,bottom⟩ := by
  rw [readFilters] at h
  split_ifs at h with hvalid
  split at h
  · next fs' hread =>
    obtain rfl := Option.some.inj h
    have hgraft := @readFrom_graft op before bottom outer _ _ _ hread
    simp only [State.graft,List.append_nil,List.nil_append] at hgraft
    exact ⟨by simpa using hvalid,hgraft⟩
  · cases h

end Graft

section Items

variable {lhs v w : List UInt8} {f : Filter}

theorem readFrom_item {frames : List (Op × List Filter)} {bottom : List Filter}
    (hw : ∀ c∈w,c≠lparen ∧ c≠rparen) (text : List UInt8) :
    readFrom ⟨.item text,frames,bottom⟩ w=some ⟨.item (text++w),frames,bottom⟩ := by
  induction w generalizing text with
  | nil => simp [readFrom]
  | cons c w ih =>
    have hc := hw c List.mem_cons_self
    rw [readFrom_cons]
    simp only [step,hc.1,hc.2,if_false,Option.bind_some]
    rw [ih fun d hd => hw d (List.mem_cons_of_mem _ hd)]
    simp

/-- An item in parentheses adds its filter. -/
theorem readFrom_parens {frames : List (Op × List Filter)} {bottom : List Filter} {c : UInt8}
    (hc : c∉[0x26,0x7c,0x21,lparen,rparen]) (hw : ∀ c∈w,c≠lparen ∧ c≠rparen)
    (hitem : itemOf (c::w)=some f) :
    readFrom ⟨.gap,frames,bottom⟩ (lparen::c::w++[rparen])=
      some (State.add ⟨.gap,frames,bottom⟩ f) := by
  simp only [List.mem_cons,List.not_mem_nil,or_false,not_or] at hc
  have hopen : step ⟨.gap,frames,bottom⟩ lparen=some ⟨.opened,frames,bottom⟩ := rfl
  have hfirst : step ⟨.opened,frames,bottom⟩ c=some ⟨.item [c],frames,bottom⟩ := by
    simp [step,hc]
  have hclose : step ⟨.item (c::w),frames,bottom⟩ rparen=
      some (State.add ⟨.gap,frames,bottom⟩ f) := by
    simp only [step,if_true]
    rw [hitem]
    rfl
  rw [List.cons_append,List.cons_append,readFrom_cons,hopen,Option.bind_some,readFrom_cons,hfirst,
    Option.bind_some,readFrom_append,readFrom_item hw,Option.bind_some,readFrom_cons]
  change (step ⟨.item (c::w),frames,bottom⟩ rparen).bind _=_
  rw [hclose]
  rfl

theorem itemOf_append (hlhs : ∀ c∈lhs,c≠equals) : itemOf (lhs++equals::v)=itemWith lhs v := by
  have hclear : ∀ c∈lhs,decide (c≠equals)=true := by simpa using hlhs
  rw [itemOf,if_neg (by simp),List.takeWhile_append_of_pos hclear,
    List.dropWhile_append_of_pos hclear]
  simp

theorem hexPair_plain {h l b : UInt8} (hb : hexPair h l=some b) {c : UInt8}
    (hc : c∈[lparen,rparen,asterisk]) : h≠c ∧ l≠c := by
  have hnone : Hex.value c=none := by
    simp only [List.mem_cons,List.not_mem_nil,or_false] at hc
    obtain rfl|rfl|rfl := hc <;> rfl
  obtain ⟨_,hhigh,hrest⟩ := Option.bind_eq_some_iff.mp hb
  obtain ⟨_,hlow,_⟩ := Option.bind_eq_some_iff.mp hrest
  constructor
  · rintro rfl
    rw [hnone] at hhigh
    cases hhigh
  · rintro rfl
    rw [hnone] at hlow
    cases hlow

theorem assertionValue_escaped (h l : UInt8) (rest : List UInt8) :
    assertionValue (esc::h::l::rest)=
      (hexPair h l).bind fun b => (assertionValue rest).map (b::·) := by
  rw [assertionValue.eq_def]
  simp

theorem assertionValue_normal {c : UInt8} (hesc : c≠esc) (hc : normal c=true) (rest : List UInt8) :
    assertionValue (c::rest)=(assertionValue rest).map (c::·) := by
  rw [assertionValue.eq_def]
  simp [hesc,hc]

/-- Parentheses and stars never stand for themselves. -/
theorem not_mem_of_assertionValue {x : List UInt8} (h : assertionValue v=some x) {c : UInt8}
    (hc : c∈[lparen,rparen,asterisk]) : c∉v := by
  have hesc : c≠esc := by
    rintro rfl
    exact absurd hc (by decide)
  have hnormal : normal c=false := by
    simp only [List.mem_cons,List.not_mem_nil,or_false] at hc
    obtain rfl|rfl|rfl := hc <;> decide
  induction v using assertionValue.induct generalizing x with
  | case1 => simp
  | case2 high low rest ih =>
    rw [assertionValue_escaped] at h
    obtain ⟨b,hb,hrest⟩ := Option.bind_eq_some_iff.mp h
    obtain ⟨y,hy,_⟩ := Option.map_eq_some_iff.mp hrest
    obtain ⟨hhigh,hlow⟩ := hexPair_plain hb hc
    simp [hesc,hhigh.symm,hlow.symm,ih hy]
  | case3 rest hshort =>
    rw [assertionValue.eq_def] at h
    dsimp only at h
    rw [if_pos rfl] at h
    split at h
    · next high low rest' => exact (hshort high low rest' rfl).elim
    · cases h
  | case4 d rest hd hn ih =>
    rw [assertionValue_normal hd hn] at h
    obtain ⟨y,hy,_⟩ := Option.map_eq_some_iff.mp h
    have hne : c≠d := by
      rintro rfl
      rw [hnormal] at hn
      cases hn
    simp [hne,ih hy]
  | case5 d rest hd hn =>
    rw [assertionValue.eq_def] at h
    simp [hd,hn] at h

/-- What may stand before the `=` of an item. -/
def nameOk (lhs : List UInt8) : Bool :=
  lhs ≠ [] && lhs.all fun c => c ∉ [0x26,0x7c,0x21,lparen,rparen,equals]

theorem readFrom_named {frames : List (Op × List Filter)} {bottom : List Filter}
    (hname : nameOk lhs=true) {x : List UInt8} (hv : assertionValue v=some x)
    (hitem : itemWith lhs v=some f) :
    readFrom ⟨.gap,frames,bottom⟩ (lparen::lhs++equals::v++[rparen])=
      some (State.add ⟨.gap,frames,bottom⟩ f) := by
  rw [nameOk,Bool.and_eq_true,List.all_eq_true] at hname
  obtain ⟨hne,hplain⟩ := hname
  cases lhs with
  | nil => simp at hne
  | cons c lhs =>
    have hnames : ∀ d∈c::lhs,d∉[0x26,0x7c,0x21,lparen,rparen,equals] :=
      fun d hd => by simpa using hplain d hd
    have hc : c∉[0x26,0x7c,0x21,lparen,rparen] := fun h =>
      hnames c List.mem_cons_self (List.mem_append_left [equals] h)
    have hw : ∀ d∈lhs++equals::v,d≠lparen ∧ d≠rparen := by
      intro d hd
      rw [List.mem_append,List.mem_cons] at hd
      obtain hd|rfl|hd := hd
      · have hd' := hnames d (List.mem_cons_of_mem _ hd)
        constructor
        · rintro rfl
          exact hd' (by decide)
        · rintro rfl
          exact hd' (by decide)
      · decide
      · constructor
        · rintro rfl
          exact not_mem_of_assertionValue hv (by decide) hd
        · rintro rfl
          exact not_mem_of_assertionValue hv (by decide) hd
    have heq : itemOf (c::(lhs++equals::v))=some f := by
      rw [← List.cons_append,itemOf_append,hitem]
      intro d hd
      rintro rfl
      exact hnames _ hd (by decide)
    have hread := @readFrom_parens _ _ frames bottom c hc hw heq
    simpa using hread

theorem itemWith_equality (hlast : ∀ c∈lhs.getLast?,c∉[0x7e,0x3e,0x3c,colon])
    (hdesc : attributeDescription lhs=true) {x : List UInt8} (hv : assertionValue v=some x) :
    itemWith lhs v=some (.equality lhs x) := by
  have hstar : asterisk∉v := not_mem_of_assertionValue hv (by decide)
  have hne : v≠[asterisk] := by
    rintro rfl
    exact hstar (by simp)
  have hend (c : UInt8) (hc : c∈[0x7e,0x3e,0x3c,colon]) : lhs.getLast?≠some c :=
    fun h => hlast c h hc
  rw [itemWith,if_neg (hend _ (by simp)),if_neg (hend _ (by simp)),if_neg (hend _ (by simp)),
    if_neg (hend _ (by simp)),hdesc,if_neg (by simp),if_neg hne,if_neg hstar,simple,if_pos hdesc,hv]
  rfl

theorem itemWith_extensible {names : List UInt8} {x : List UInt8} (hv : assertionValue v=some x) :
    itemWith (names++[colon]) v=extensibleOf names x := by
  have hlast : (names++[colon]).getLast?=some colon := by simp
  rw [itemWith,hlast,if_neg (by decide),if_neg (by decide),if_neg (by decide),if_pos rfl,hv,
    List.dropLast_concat]
  rfl

end Items

section Whole

variable {frames : List (Op × List Filter)} {bottom fs : List Filter} {f : Filter} {op : Op}
  {text : List UInt8}

theorem readFrom_close (h : op.build fs=some f) :
    readFrom ⟨.gap,(op,fs)::frames,bottom⟩ [rparen]=some (State.add ⟨.gap,frames,bottom⟩ f) := by
  have hclose : step ⟨.gap,(op,fs)::frames,bottom⟩ rparen=
      some (State.add ⟨.gap,frames,bottom⟩ f) := by
    change (op.build fs).map _=_
    rw [h]
    rfl
  rw [readFrom_cons,hclose]
  rfl

theorem readFilter_eq_some (hvalid : validUtf8 text=true)
    (hread : readFrom ⟨.gap,[],[]⟩ text=some ⟨.gap,[],[f]⟩) : readFilter text=some f := by
  rw [readFilter,readFilters,hvalid,if_neg (by simp),hread]

theorem validUtf8_of_readFilter (h : readFilter text=some f) : validUtf8 text=true := by
  by_contra hvalid
  have hnone : readFilters text=none := by
    rw [readFilters,if_pos (by simpa using hvalid)]
  rw [readFilter,hnone] at h
  cases h

end Whole

end FastPki.Rfc4515
