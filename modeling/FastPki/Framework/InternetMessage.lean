import FastPki.Framework.EncodedWord

namespace FastPki

def crlf : List UInt8 := [0x0d,0x0a]

/-- A line of its own: neither half of a line end stands in it. -/
def PlainLine (l : List UInt8) : Prop := ∀ c∈l,c≠0x0d ∧ c≠0x0a

def unlines (ls : List (List UInt8)) : List UInt8 := ls.flatMap (·++crlf)

/-- The lines of a text that ends every line in CR LF and has neither elsewhere. -/
def readLines : List UInt8 → Option (List (List UInt8))
  | [] => some []
  | c::cs =>
    if c = 0x0d then
      match cs with
      | d::rest => if d = 0x0a then (readLines rest).map ([]::·) else none
      | [] => none
    else if c = 0x0a then none
    else match readLines cs with
      | some (l::ls) => some ((c::l)::ls)
      | _ => none

/-- A line that ended in CR LF has its CR still. -/
def dropCr (l : List UInt8) : List UInt8 := if l.getLast? = some 0x0d then l.dropLast else l

/-- What stands after the last line end is left as it is. -/
def endLines : List (List UInt8) → List (List UInt8)
  | [] => []
  | [l] => [l]
  | l::m::ls => dropCr l::endLines (m::ls)

/-- A text whose lines end in LF or CR LF, with every end as CR LF. -/
def crlfText (text : List UInt8) : List UInt8 := crlf.intercalate (endLines (text.splitOn 0x0a))

def startsBlank (l : List UInt8) : Bool := l.head?.any foldingBlank

/-- A line that begins with a blank goes on with the one before. -/
def unfoldLines : List (List UInt8) → List (List UInt8)
  | [] => []
  | l::ls =>
    match unfoldLines ls with
    | [] => [l]
    | f::fs => if startsBlank f then (l++f)::fs else l::f::fs

def colonSign : UInt8 := 0x3a

/-- `name: value`; the blank after the colon is not part of the value. -/
def readField (f : List UInt8) : Option (List UInt8 × List UInt8) :=
  let name := f.takeWhile (· ≠ colonSign)
  if name ≠ [] ∧ (name.all fun c => 0x21 ≤ c && c ≤ 0x7e) = true then
    match f.dropWhile (· ≠ colonSign) with
    | _::c::value => some (name,if c = 0x20 then value else c::value)
    | [_] => some (name,[])
    | [] => none
  else none

/-- A message as it is read: its header fields in order and the lines of its body. -/
structure Mail where
  fields : List (List UInt8 × List UInt8)
  body : List (List UInt8)
  deriving DecidableEq

/-- The header ends at the first empty line. -/
def readMail (ls : List (List UInt8)) : Option Mail :=
  ((unfoldLines (ls.takeWhile (· ≠ []))).mapM readField).map
    (⟨·,(ls.dropWhile (· ≠ [])).drop 1⟩)

/-- A text cut off from the front, piece after piece; `size` says how much goes next. -/
def slices {α : Type} (size : List α → Nat) (hpos : ∀ s,s≠[] → 0<size s) :
    List α → List (List α)
  | [] => []
  | c::cs => (c::cs).take (size (c::cs))::slices size hpos ((c::cs).drop (size (c::cs)))
termination_by s => s.length
decreasing_by
  have hsize := hpos (c::cs) (List.cons_ne_nil c cs)
  rw [List.length_drop]
  simp only [List.length_cons]
  omega

section Lines

theorem unlines_append (a b : List (List UInt8)) : unlines (a++b)=unlines a++unlines b :=
  List.flatMap_append

theorem readLines_cons {c : UInt8} (hc : c≠0x0d ∧ c≠0x0a) (cs : List UInt8) :
    readLines (c::cs)=
      match readLines cs with
      | some (l::ls) => some ((c::l)::ls)
      | _ => none := by
  conv_lhs => unfold readLines
  rw [if_neg hc.1,if_neg hc.2]

theorem readLines_line {l : List UInt8} (h : PlainLine l) (rest : List UInt8) :
    readLines (l++crlf++rest)=(readLines rest).map (l::·) := by
  induction l with
  | nil => simp [crlf,readLines]
  | cons c l ih =>
    have hc : c≠0x0d ∧ c≠0x0a := h c List.mem_cons_self
    have hl : PlainLine l := fun d hd => h d (List.mem_cons_of_mem c hd)
    have htail := ih hl
    rw [List.cons_append,List.cons_append,readLines_cons hc,htail]
    cases readLines rest with
    | none => rfl
    | some ls => rfl

/-- Lines that are written one after the other are read back. -/
theorem readLines_unlines {ls : List (List UInt8)} (h : ∀ l∈ls,PlainLine l) :
    readLines (unlines ls)=some ls := by
  induction ls with
  | nil => rfl
  | cons l ls ih =>
    have hl : PlainLine l := h l List.mem_cons_self
    have hls := ih fun m hm => h m (List.mem_cons_of_mem l hm)
    rw [unlines,List.flatMap_cons,readLines_line hl,← unlines,hls]
    rfl

theorem plainLine_of_printable {l : List UInt8} (h : ∀ c∈l,0x20<c) : PlainLine l := by
  intro c hc
  have hlow := h c hc
  constructor
  · rintro rfl
    exact absurd hlow (by decide)
  · rintro rfl
    exact absurd hlow (by decide)

theorem plainLine_append {a b : List UInt8} : PlainLine (a++b) ↔ PlainLine a ∧ PlainLine b :=
  List.forall_mem_append

theorem crlfText_line {l : List UInt8} (h : 0x0a∉l) (text : List UInt8) :
    crlfText (l++0x0a::text)=dropCr l++crlf++crlfText text := by
  have hsplit : (l++0x0a::text).splitOn 0x0a=l::text.splitOn 0x0a :=
    List.splitOn_append_cons_self_of_not_mem h text
  obtain ⟨m,ms,hm⟩ := List.exists_cons_of_ne_nil (List.splitOn_ne_nil 0x0a text)
  obtain ⟨e,es,he⟩ : ∃ e es,endLines (m::ms)=e::es := by
    cases ms with
    | nil => exact ⟨m,[],rfl⟩
    | cons k ks => exact ⟨dropCr m,endLines (k::ks),rfl⟩
  rw [crlfText,crlfText,hsplit,hm,endLines,he]
  simp [List.intercalate]

theorem crlfText_last {l : List UInt8} (h : 0x0a∉l) : crlfText l=l := by
  rw [crlfText,List.splitOn_eq_singleton h]
  simp [endLines,List.intercalate]

/-- Lines that break with a blank at the start of the next, as they are written. -/
theorem unlines_folded (l : List UInt8) (ws : List (List UInt8)) (w : List UInt8) :
    l++(crlf++[0x20]).intercalate (w::ws)++crlf=unlines ((l++w)::ws.map (0x20::·)) := by
  induction ws generalizing l w with
  | nil => simp [unlines,List.intercalate]
  | cons v ws ih =>
    have htail : [0x20]++(crlf++[0x20]).intercalate (v::ws)++crlf=
        unlines ((0x20::v)::ws.map (0x20::·)) := ih [0x20] v
    have hsplit : (crlf++[0x20]).intercalate (w::v::ws)=
        w++crlf++([0x20]++(crlf++[0x20]).intercalate (v::ws)) := by
      simp [List.intercalate]
    rw [hsplit,List.map_cons,unlines,List.flatMap_cons,← unlines]
    rw [← htail]
    simp

theorem flatten_folded (w : List UInt8) (ws : List (List UInt8)) :
    w++(ws.map (0x20::·)).flatten=[0x20].intercalate (w::ws) := by
  induction ws generalizing w with
  | nil => simp [List.intercalate]
  | cons v ws ih =>
    have htail := ih v
    have hsplit : [(0x20 : UInt8)].intercalate (w::v::ws)=w++0x20::[0x20].intercalate (v::ws) := by
      simp [List.intercalate]
    rw [hsplit,← htail]
    simp

end Lines

section Header

theorem unfoldLines_head {l : List UInt8} (hl : l≠[]) (ls : List (List UInt8)) :
    ∃ f fs,unfoldLines (l::ls)=f::fs ∧ f.head?=l.head? := by
  rw [unfoldLines]
  split
  · exact ⟨l,[],rfl,rfl⟩
  · rename_i f fs _
    split_ifs
    · refine ⟨l++f,fs,rfl,?_⟩
      obtain ⟨c,cs,rfl⟩ := List.exists_cons_of_ne_nil hl
      rfl
    · exact ⟨l,f::fs,rfl,rfl⟩

/-- A field ends where a line does not begin with a blank. -/
theorem unfoldLines_field {cs rest : List (List UInt8)} (l : List UInt8)
    (hcs : ∀ c∈cs,startsBlank c=true)
    (hrest : ∀ m∈rest.head?,m≠[] ∧ startsBlank m=false) :
    unfoldLines (l::cs++rest)=(l++cs.flatten)::unfoldLines rest := by
  induction cs generalizing l with
  | nil =>
    cases rest with
    | nil => simp [unfoldLines]
    | cons m ms =>
      obtain ⟨hne,hstart⟩ := hrest m rfl
      obtain ⟨f,fs,hf,hhead⟩ := unfoldLines_head hne ms
      have hfirst : startsBlank f=false := by rw [startsBlank,hhead,← startsBlank,hstart]
      rw [List.singleton_append,unfoldLines,hf]
      simp [hfirst]
  | cons c cs ih =>
    have hc : startsBlank c=true := hcs c List.mem_cons_self
    have hne : c≠[] := by
      intro hnil
      rw [hnil] at hc
      cases hc
    have hnext := ih c fun d hd => hcs d (List.mem_cons_of_mem c hd)
    have hfirst : startsBlank (c++cs.flatten)=true := by
      obtain ⟨d,ds,rfl⟩ := List.exists_cons_of_ne_nil hne
      exact hc
    rw [List.cons_append,unfoldLines,hnext]
    simp [hfirst]

theorem readField_field {name : List UInt8} (value : List UInt8) (hne : name≠[])
    (hname : ∀ c∈name,(0x21 ≤ c ∧ c ≤ 0x7e) ∧ c≠colonSign) :
    readField (name++colonSign::0x20::value)=some (name,value) := by
  have hall : ∀ c∈name,decide (c≠colonSign)=true := fun c hc => decide_eq_true (hname c hc).2
  have htake : (name++colonSign::0x20::value).takeWhile (· ≠ colonSign)=name := by
    rw [List.takeWhile_append_of_pos hall]
    simp
  have hdrop : (name++colonSign::0x20::value).dropWhile (· ≠ colonSign)=colonSign::0x20::value := by
    rw [List.dropWhile_append_of_pos hall]
    simp
  have hgood : name≠[] ∧ (name.all fun c => 0x21 ≤ c && c ≤ 0x7e)=true := by
    refine ⟨hne,List.all_eq_true.mpr fun c hc => ?_⟩
    simpa using (hname c hc).1
  unfold readField
  rw [htake,hdrop]
  simp only [if_pos hgood]
  rfl

/-- Fields of one line each stand before what follows. -/
theorem unfoldLines_append {ls rest : List (List UInt8)}
    (hls : ∀ l∈ls,l≠[] ∧ startsBlank l=false)
    (hrest : ∀ m∈rest.head?,m≠[] ∧ startsBlank m=false) :
    unfoldLines (ls++rest)=ls++unfoldLines rest := by
  induction ls with
  | nil => rfl
  | cons l ls ih =>
    have htail := ih fun m hm => hls m (List.mem_cons_of_mem l hm)
    have hnext : ∀ m∈(ls++rest).head?,m≠[] ∧ startsBlank m=false := by
      intro m hm
      cases ls with
      | nil => exact hrest m hm
      | cons k ks =>
        obtain rfl := Option.some.inj hm
        exact hls k (by simp)
    have hfield : unfoldLines (l::[]++(ls++rest))=(l++[].flatten)::unfoldLines (ls++rest) :=
      unfoldLines_field l (by simp) hnext
    simpa [htail] using hfield

/-- The line of a field. -/
def fieldLine (f : List UInt8 × List UInt8) : List UInt8 := f.1++colonSign::0x20::f.2

/-- A name that a field may have. -/
def FieldName (name : List UInt8) : Prop :=
  name≠[] ∧ ∀ c∈name,(0x21 ≤ c ∧ c ≤ 0x7e) ∧ c≠colonSign

theorem FieldName.printable {name : List UInt8} (h : FieldName name) : ∀ c∈name,0x20<c := by
  intro c hc
  have hlow : 0x21 ≤ c := (h.2 c hc).1.1
  rw [UInt8.le_iff_toNat_le] at hlow
  rw [UInt8.lt_iff_toNat_lt]
  exact hlow

theorem FieldName.starts {name : List UInt8} (h : FieldName name) (value : List UInt8) :
    fieldLine (name,value)≠[] ∧ startsBlank (fieldLine (name,value))=false := by
  obtain ⟨c,cs,rfl⟩ := List.exists_cons_of_ne_nil h.1
  have hc : 0x20<c := h.printable c List.mem_cons_self
  refine ⟨List.cons_ne_nil _ _,?_⟩
  have hblank : foldingBlank c=false := foldingBlank_of_printable hc
  simpa [fieldLine,startsBlank] using hblank

theorem mapM_readField {fs : List (List UInt8 × List UInt8)} (h : ∀ f∈fs,FieldName f.1) :
    (fs.map fieldLine).mapM readField=some fs := by
  induction fs with
  | nil => rfl
  | cons f fs ih =>
    obtain ⟨hne,hname⟩ := h f List.mem_cons_self
    have htail := ih fun g hg => h g (List.mem_cons_of_mem f hg)
    have hfirst : readField (fieldLine f)=some f := readField_field f.2 hne hname
    rw [List.map_cons,List.mapM_cons,hfirst,htail]
    rfl

/-- The first empty line parts the message. -/
theorem readMail_append {header : List (List UInt8)} (body : List (List UInt8))
    (h : ∀ l∈header,l≠[]) :
    readMail (header++[]::body)=((unfoldLines header).mapM readField).map (⟨·,body⟩) := by
  have hne : ∀ l∈header,decide (l≠[])=true := fun l hl => decide_eq_true (h l hl)
  have htake : (header++[]::body).takeWhile (· ≠ [])=header := by
    rw [List.takeWhile_append_of_pos hne]
    simp
  have hdrop : (header++[]::body).dropWhile (· ≠ [])=[]::body := by
    rw [List.dropWhile_append_of_pos hne]
    simp
  rw [readMail,htake,hdrop]
  rfl

/-- A message is read back from the lines of its fields, one of them folded, and its body. -/
theorem readMail_folded {before after : List (List UInt8 × List UInt8)} {name : List UInt8}
    {more : List (List UInt8)} (first : List UInt8) (body : List (List UInt8))
    (hbefore : ∀ f∈before,FieldName f.1) (hname : FieldName name)
    (hmore : ∀ l∈more,startsBlank l=true) (hafter : ∀ f∈after,FieldName f.1) :
    readMail (before.map fieldLine++(fieldLine (name,first)::more++after.map fieldLine)++[]::body)=
      some ⟨before++(name,first++more.flatten)::after,body⟩ := by
  have hstarts : ∀ fs : List (List UInt8 × List UInt8),(∀ f∈fs,FieldName f.1) →
      ∀ l∈fs.map fieldLine,l≠[] ∧ startsBlank l=false := by
    intro fs hfs l hl
    obtain ⟨f,hf,rfl⟩ := List.mem_map.mp hl
    exact (hfs f hf).starts f.2
  have hne : ∀ l∈before.map fieldLine++(fieldLine (name,first)::more++after.map fieldLine),l≠[] := by
    intro l hl
    simp only [List.mem_append,List.mem_cons] at hl
    obtain hl|(rfl|hl)|hl := hl
    · exact (hstarts before hbefore l hl).1
    · exact (hname.starts first).1
    · intro hnil
      have hblank := hmore l hl
      rw [hnil] at hblank
      cases hblank
    · exact (hstarts after hafter l hl).1
  have hunfold : unfoldLines
      (before.map fieldLine++(fieldLine (name,first)::more++after.map fieldLine))=
        (before++(name,first++more.flatten)::after).map fieldLine := by
    have hhead : ∀ m∈(fieldLine (name,first)::more++after.map fieldLine).head?,
        m≠[] ∧ startsBlank m=false := by
      intro m hm
      obtain rfl := Option.some.inj hm
      exact hname.starts first
    have hlast : ∀ m∈(after.map fieldLine).head?,m≠[] ∧ startsBlank m=false :=
      fun m hm => hstarts after hafter m (List.mem_of_mem_head? hm)
    have hend : unfoldLines (after.map fieldLine++[])=after.map fieldLine++unfoldLines [] :=
      unfoldLines_append (hstarts after hafter) (by simp)
    rw [List.append_nil,unfoldLines,List.append_nil] at hend
    rw [unfoldLines_append (hstarts before hbefore) hhead,unfoldLines_field _ hmore hlast,hend]
    simp [fieldLine]
  have hnames : ∀ f∈before++(name,first++more.flatten)::after,FieldName f.1 := by
    intro f hf
    simp only [List.mem_append,List.mem_cons] at hf
    obtain hf|rfl|hf := hf
    · exact hbefore f hf
    · exact hname
    · exact hafter f hf
  rw [readMail_append body hne,hunfold,mapM_readField hnames]
  rfl

end Header

section Slices

variable {α : Type} {size : List α → Nat} {hpos : ∀ s,s≠[] → 0<size s}

theorem slices_flatten (s : List α) : (slices size hpos s).flatten=s := by
  induction s using slices.induct size hpos with
  | case1 =>
    rw [slices]
    rfl
  | case2 c cs ih =>
    rw [slices,List.flatten_cons,ih,List.take_append_drop]

/-- What holds of every piece that can be cut off holds of the slices. -/
theorem slices_forall {P : List α → Prop} (h : ∀ s,s≠[] → P (s.take (size s))) (s : List α) :
    ∀ t∈slices size hpos s,P t := by
  induction s using slices.induct size hpos with
  | case1 =>
    rw [slices]
    intro t ht
    cases ht
  | case2 c cs ih =>
    rw [slices]
    intro t ht
    obtain rfl|ht := List.mem_cons.mp ht
    · exact h (c::cs) (List.cons_ne_nil c cs)
    · exact ih t ht

end Slices

end FastPki
