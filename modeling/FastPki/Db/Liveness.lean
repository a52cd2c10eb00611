import FastPki.Framework.KeyValue
import FastPki.Framework.Substring
import FastPki.X509.Name

namespace FastPki.Db.Liveness

open X509 (Octets octets cString)
open KeyValue

def kDefaults : List Setting :=
  [(octets "keepalives",octets "1"),
   (octets "keepalives_idle",octets "10"),
   (octets "keepalives_interval",octets "5"),
   (octets "keepalives_count",octets "3"),
   (octets "tcp_user_timeout",octets "15000")]

/-- The needle stands at the start or behind a space; the search goes through all its places. -/
def present (key out : Octets) : Bool :=
  (List.range out.length).any fun p =>
    (key++[61]).isPrefixOf (out.drop p) && (p = 0 || out[p-1]? = some 32)

def separated (out : Octets) : Octets :=
  if out ≠ [] ∧ out.getLast? ≠ some 32 then out++[32] else out

/-- One turn of the loop, over the text as it has grown so far. -/
def addDefault (out : Octets) (kv : Setting) : Octets :=
  if present kv.1 out then out else separated out++write kv

def withLivenessDefaults (conninfo : Octets) : Octets := kDefaults.foldl addDefault conninfo

/-- What `PQconnectdb` reads of `conninfo.c_str()`. -/
def pqSettings (conninfo : Octets) : Option (List Setting) := parse (cString conninfo)

/-- The settings of the operator come first and keep their values, and what follows are defaults of
keywords that they do not set. -/
def OperatorWins (conninfo : Octets) (set : List Setting) : Prop :=
  ∃ out,pqSettings (withLivenessDefaults conninfo)=some out ∧
    (∀ k v,settingOf set k=some v → settingOf out k=some v) ∧
    ∃ added,out=set++added ∧ ∀ e∈added,e∈kDefaults ∧ settingOf set e.1=none

/-- The defaults whose keyword the search does not find. -/
def missing (conninfo : Octets) : List Setting := kDefaults.filter fun kv => !present kv.1 conninfo

/-- The text does not end in an equal sign and blanks, in a backslash, or in a space that a backslash
takes into the value. -/
def closedEnd (conninfo : Octets) : Bool :=
  match Reader.read ⟨[],.between⟩ conninfo with
  | some ⟨_,.between⟩ => true
  | some ⟨_,.bare _ _⟩ => conninfo.getLast? ≠ some 32
  | _ => false

section Search

/-- The search, symbol by symbol: `b` says that the needle may start here. -/
def presentAt (key : Octets) : Bool → Octets → Bool
  | _,[] => false
  | b,c::out => (b && (key++[61]).isPrefixOf (c::out)) || presentAt key (c = 32) out

theorem any_range_eq_presentAt (key out : Octets) (b : Bool) :
    ((List.range out.length).any fun p => (key++[61]).isPrefixOf (out.drop p) &&
      if p = 0 then b else out[p-1]? = some 32)=presentAt key b out := by
  induction out generalizing b with
  | nil => rfl
  | cons c out ih =>
    rw [presentAt,← ih,List.length_cons,List.range_succ_eq_map,List.any_cons,List.any_map]
    congr 1
    · simp [Bool.and_comm]
    · congr 1
      funext p
      cases p with
      | zero => simp
      | succ p => simp

theorem present_eq (key out : Octets) : present key out=presentAt key true out := by
  rw [← any_range_eq_presentAt]
  unfold present
  congr 1
  funext p
  by_cases hp : p=0
  · simp [hp]
  · simp [hp]

/-- A needle without a space does not reach over one. -/
theorem isPrefixOf_append_space {n : Octets} (hn : 32∉n) (x t : Octets) :
    n.isPrefixOf (x++32::t)=n.isPrefixOf x := by
  rw [Bool.eq_iff_iff,List.isPrefixOf_iff_prefix,List.isPrefixOf_iff_prefix]
  exact prefix_append_cons_iff hn x t

theorem presentAt_append_space {key : Octets} (hkey : 32∉key) (b : Bool) (x t : Octets) :
    presentAt key b (x++32::t)=(presentAt key b x || presentAt key true t) := by
  have hneedle : 32∉key++[61] := by simp [hkey]
  induction x generalizing b with
  | nil =>
    have hfirst : (key++[61]).isPrefixOf (32::t)=false := by
      have hmove := isPrefixOf_append_space hneedle [] t
      rw [List.nil_append] at hmove
      rw [hmove]
      cases key with
      | nil => rfl
      | cons a key => rfl
    simp [presentAt,hfirst]
  | cons c x ih =>
    have hmove := isPrefixOf_append_space hneedle (c::x) t
    rw [List.cons_append] at hmove ⊢
    rw [presentAt,presentAt,hmove,ih,Bool.or_assoc]

theorem present_append {key : Octets} (hkey : 32∉key) (out : Octets) (e : Setting) :
    present key (separated out++write e)=(present key out || present key (write e)) := by
  simp only [present_eq,separated]
  split_ifs with hsep
  · rw [List.append_assoc,List.singleton_append,presentAt_append_space hkey]
  · by_cases hnil : out=[]
    · rw [hnil,List.nil_append,presentAt,Bool.false_or]
    · have hlast : out.getLast?=some 32 := by
        by_contra hne
        exact hsep ⟨hnil,hne⟩
      obtain ⟨x,rfl⟩ := List.getLast?_eq_some_iff.mp hlast
      have hx := presentAt_append_space hkey true x []
      rw [hx,List.append_assoc,List.singleton_append,presentAt_append_space hkey]
      simp [presentAt]

/-- The defaults that the loop has appended hide none of those to come. -/
theorem foldl_addDefault {l : List Setting} (hkeys : ∀ e∈l,32∉e.1)
    (hl : l.Pairwise fun e e' => present e'.1 (write e)=false) {out s : Octets}
    (hsame : ∀ e∈l,present e.1 out=present e.1 s) :
    l.foldl addDefault out=
      (l.filter fun e => !present e.1 s).foldl (fun out e => separated out++write e) out := by
  induction l generalizing out with
  | nil => rfl
  | cons e l ih =>
    rw [List.pairwise_cons] at hl
    have hkeys' : ∀ d∈l,32∉d.1 := fun d hd => hkeys d (List.mem_cons_of_mem e hd)
    have hhead : present e.1 out=present e.1 s := hsame e List.mem_cons_self
    cases hp : present e.1 s with
    | true =>
      have hkeep : addDefault out e=out := by simp [addDefault,hhead,hp]
      have hrest := ih hkeys' hl.2 fun d hd => hsame d (List.mem_cons_of_mem e hd)
      rw [List.foldl_cons,hkeep,hrest,List.filter_cons_of_neg (by simp [hp])]
    | false =>
      have hadd : addDefault out e=separated out++write e := by simp [addDefault,hhead,hp]
      have hsame' : ∀ d∈l,present d.1 (separated out++write e)=present d.1 s := by
        intro d hd
        rw [present_append (hkeys' d hd),hl.1 d hd,Bool.or_false]
        exact hsame d (List.mem_cons_of_mem e hd)
      rw [List.foldl_cons,hadd,ih hkeys' hl.2 hsame',List.filter_cons_of_pos (by simp [hp]),
        List.foldl_cons]

end Search

section Append

theorem getLast_write {e : Setting} (he : Simple e) (t : Octets) :
    t++write e≠[] ∧ (t++write e).getLast?≠some 32 := by
  have hvalue := he.value
  refine ⟨by simp [write],?_⟩
  intro hlast
  rw [List.getLast?_append,write,List.getLast?_append,List.getLast?_cons] at hlast
  cases hv : e.2.getLast? with
  | none => exact hvalue (List.getLast?_eq_none_iff.mp hv)
  | some c =>
    have hplain := he.valueOctets c (List.mem_of_getLast? hv)
    rw [hv] at hlast
    obtain rfl : c=32 := by simpa using hlast
    exact absurd hplain (by decide)

theorem foldl_separated {m : List Setting} (hm : ∀ e∈m,Simple e) {t : Octets}
    (ht : t≠[] ∧ t.getLast?≠some 32) :
    m.foldl (fun out e => separated out++write e) t=t++writeAll m := by
  induction m generalizing t with
  | nil => simp [writeAll]
  | cons e m ih =>
    have hsep : separated t=t++[32] := if_pos ht
    have hnext := getLast_write (hm e List.mem_cons_self) (t++[32])
    rw [List.foldl_cons,hsep,ih (fun d hd => hm d (List.mem_cons_of_mem e hd)) hnext]
    simp [writeAll]

theorem simple_kDefaults : ∀ e∈kDefaults,Simple e := by
  intro e he
  have hall : kDefaults.all fun e => e.1 ≠ [] && e.1.all (fun c => Reader.plain c && c ≠ 61) &&
      e.2 ≠ [] && e.2.all Reader.plain := by decide
  have hone := List.all_eq_true.mp hall e he
  simp only [Bool.and_eq_true,decide_eq_true_eq,List.all_eq_true] at hone
  obtain ⟨⟨⟨hk,hkall⟩,hv⟩,hvall⟩ := hone
  exact ⟨hk,hkall,hv,hvall⟩

theorem withLivenessDefaults_eq (s : Octets) :
    withLivenessDefaults s=(missing s).foldl (fun out e => separated out++write e) s := by
  have hpairs : kDefaults.Pairwise fun e e' => present e'.1 (write e)=false := by decide +kernel
  refine foldl_addDefault ?_ hpairs fun _ _ => rfl
  intro e he hspace
  have hplain := ((simple_kDefaults e he).keywordOctets 32 hspace).1
  exact absurd hplain (by decide)

theorem write_ne_nil (e : Setting) : write e≠[] := by simp [write]

/-- What is put between a text and a default. -/
def Gap (q : Octets) : Prop := q=[] ∨ q=[32]

theorem exists_gap (s : Octets) : ∃ q,Gap q ∧ separated s=s++q := by
  rw [separated]
  split_ifs
  · exact ⟨[32],Or.inr rfl,rfl⟩
  · exact ⟨[],Or.inl rfl,(List.append_nil s).symm⟩

section Modes

variable {q : Octets} {e : Setting} {l : List Setting} {k v : Octets}

theorem read_between (hq : Gap q) (he : Simple e) :
    Reader.read ⟨l,.between⟩ (q++write e)=some ⟨l,.bare e.1 e.2⟩ := by
  have hblank : Reader.read ⟨l,.between⟩ q=some ⟨l,.between⟩ := by
    obtain rfl|rfl := hq
    · rfl
    · rfl
  rw [Reader.read_append,hblank,Option.bind_some,he.read]

/-- The value that is awaited is not empty after all. -/
theorem read_awaited (hq : Gap q) (he : Simple e) :
    Reader.read ⟨l,.value k⟩ (q++write e)=some ⟨l,.bare k (write e)⟩ := by
  have hblank : Reader.read ⟨l,.value k⟩ q=some ⟨l,.value k⟩ := by
    obtain rfl|rfl := hq
    · rfl
    · rfl
  rw [Reader.read_append,hblank,Option.bind_some,Reader.read_value (write_ne_nil e) he.plain]

/-- A space ends a bare value. -/
theorem read_ended (he : Simple e) :
    Reader.read ⟨l,.bare k v⟩ ([32]++write e)=some ⟨l++[(k,v)],.bare e.1 e.2⟩ := by
  have hstore : Reader.read ⟨l,.bare k v⟩ [32]=some ⟨l++[(k,v)],.between⟩ := rfl
  rw [Reader.read_append,hstore,Option.bind_some,he.read]

/-- Behind a backslash it does not. -/
theorem read_escaped (hq : Gap q) (he : Simple e) :
    Reader.read ⟨l,.bareEscape k v⟩ (q++write e)=some ⟨l,.bare k (v++(q++write e))⟩ := by
  obtain ⟨c,t,hct⟩ := List.exists_cons_of_ne_nil
    (List.append_ne_nil_of_right_ne_nil q (write_ne_nil e))
  have htail : ∀ d∈t,Reader.plain d=true := by
    obtain rfl|rfl := hq
    · intro d hd
      rw [List.nil_append] at hct
      exact he.plain d (hct ▸ List.mem_cons_of_mem c hd)
    · intro d hd
      obtain ⟨-,rfl⟩ := List.cons.inj hct
      exact he.plain d hd
  have hfirst : Reader.next ⟨l,.bareEscape k v⟩ c=some ⟨l,.bare k (v++[c])⟩ := rfl
  rw [hct,Reader.read_cons,hfirst,Option.bind_some,Reader.read_bare htail,List.append_assoc,
    List.singleton_append]

end Modes

/-- The defaults behind a text that is read to its end: they are settings of their own where it is
closed, and else the first of them goes into the last value. -/
theorem parse_defaults {s : Octets} {set : List Setting} (hs : parse s=some set) {e : Setting}
    {m : List Setting} (he : Simple e) (hm : ∀ d∈m,Simple d) :
    (closedEnd s=true ∧ parse (separated s++write e++writeAll m)=some (set++e::m)) ∨
    (closedEnd s=false ∧ ∃ l k v v',set=l++[(k,v)] ∧ v'≠v ∧
      parse (separated s++write e++writeAll m)=some (l++(k,v')::m)) := by
  obtain ⟨⟨l,mode⟩,hread,hfinish⟩ := Option.bind_eq_some_iff.mp hs
  obtain ⟨q,hq,hsep⟩ := exists_gap s
  rw [hsep,List.append_assoc s q]
  cases mode with
  | between =>
    obtain rfl : l=set := Option.some.inj hfinish
    exact Or.inl ⟨by simp [closedEnd,hread],parse_behind hread (read_between hq he) hm⟩
  | name k => cases hfinish
  | named k => cases hfinish
  | value k =>
    have hset : l++[(k,[])]=set := Option.some.inj hfinish
    exact Or.inr ⟨by simp [closedEnd,hread],l,k,[],write e,hset.symm,write_ne_nil e,
      parse_behind hread (read_awaited hq he) hm⟩
  | bare k v =>
    have hset : l++[(k,v)]=set := Option.some.inj hfinish
    by_cases hlast : s.getLast?=some 32
    · -- the space is part of the value, so no other is put behind it
      have hsame : separated s=s := if_neg fun h => h.2 hlast
      have hnone : q=[] := List.append_right_eq_self.mp (hsep.symm.trans hsame)
      have hbare := Reader.read_bare (l := l) (k := k) (v := v) he.plain
      rw [hnone,List.nil_append]
      refine Or.inr ⟨by simp [closedEnd,hread,hlast],l,k,v,v++write e,hset.symm,?_,
        parse_behind hread hbare hm⟩
      simp [write_ne_nil e]
    · have hne : s≠[] := by
        rintro rfl
        cases hread
      have hsame : separated s=s++[32] := if_pos ⟨hne,hlast⟩
      have hspace : q=[32] := List.append_cancel_left (hsep.symm.trans hsame)
      rw [hspace,← hset]
      exact Or.inl ⟨by simp [closedEnd,hread,hlast],parse_behind hread (read_ended he) hm⟩
  | bareEscape k v =>
    have hset : l++[(k,v)]=set := Option.some.inj hfinish
    refine Or.inr ⟨by simp [closedEnd,hread],l,k,v,v++(q++write e),hset.symm,?_,
      parse_behind hread (read_escaped hq he) hm⟩
    simp [write_ne_nil e]
  | quoted k v => cases hfinish
  | quotedEscape k v => cases hfinish

theorem simple_missing {s : Octets} : ∀ e∈missing s,Simple e :=
  fun e he => simple_kDefaults e (List.mem_of_mem_filter he)

theorem withLivenessDefaults_of_none {s : Octets} (h : missing s=[]) : withLivenessDefaults s=s := by
  rw [withLivenessDefaults_eq,h]
  rfl

theorem withLivenessDefaults_of_cons {s : Octets} {e : Setting} {m : List Setting}
    (h : missing s=e::m) : withLivenessDefaults s=separated s++write e++writeAll m := by
  have hsimple : ∀ d∈e::m,Simple d := h ▸ simple_missing
  have hlast := getLast_write (hsimple e List.mem_cons_self) (separated s)
  rw [withLivenessDefaults_eq,h,List.foldl_cons]
  exact foldl_separated (fun d hd => hsimple d (List.mem_cons_of_mem e hd)) hlast

/-- What the function appends has no octet 0. -/
theorem exists_appended (s : Octets) : ∃ t,withLivenessDefaults s=s++t ∧ 0∉t := by
  have hzero : ∀ e∈missing s,0∉write e := by
    intro e he
    have hall : kDefaults.all fun e => !(write e).contains 0 := by decide
    have hone := List.all_eq_true.mp hall e (List.mem_of_mem_filter he)
    simpa using hone
  cases hm : missing s with
  | nil => exact ⟨[],by rw [withLivenessDefaults_of_none hm,List.append_nil],List.not_mem_nil⟩
  | cons e m =>
    rw [hm] at hzero
    have hrest : 0∉write e++writeAll m := by
      intro hmem
      rw [List.mem_append,writeAll,List.mem_flatMap] at hmem
      obtain hhead|⟨d,hd,hmem⟩ := hmem
      · exact hzero e List.mem_cons_self hhead
      · obtain hspace|hmem := List.mem_cons.mp hmem
        · cases hspace
        · exact hzero d (List.mem_cons_of_mem e hd) hmem
    rw [withLivenessDefaults_of_cons hm,separated]
    split_ifs
    · refine ⟨32::(write e++writeAll m),by simp,?_⟩
      intro hmem
      obtain hspace|hmem := List.mem_cons.mp hmem
      · cases hspace
      · exact hrest hmem
    · exact ⟨write e++writeAll m,List.append_assoc ..,hrest⟩

end Append

theorem operatorWins_of_same {s : Octets} {set : List Setting}
    (h : pqSettings (withLivenessDefaults s)=some set) : OperatorWins s set :=
  ⟨set,h,fun _ _ hv => hv,[],(List.append_nil set).symm,fun _ he => by cases he⟩

/-- Defaults that are settings of their own hurt where one of their keywords is set. -/
theorem operatorWins_iff_of_appended {s : Octets} {set : List Setting}
    (h : pqSettings (withLivenessDefaults s)=some (set++missing s)) :
    OperatorWins s set ↔ ∀ kv∈missing s,settingOf set kv.1=none := by
  constructor
  · rintro ⟨out,hread,-,added,rfl,hadded⟩
    have hsame : set++added=set++missing s := Option.some.inj (hread.symm.trans h)
    obtain rfl := List.append_cancel_left hsame
    exact fun d hd => (hadded d hd).2
  · intro hunset
    refine ⟨_,h,fun k v hv => settingOf_append_of_none hunset hv,_,rfl,fun d hd => ?_⟩
    exact ⟨List.mem_of_mem_filter hd,hunset d hd⟩

/-- A last value that has changed is not the operator's. -/
theorem not_operatorWins_of_changed {s k v v' : Octets} {l m : List Setting} (hne : v'≠v)
    (h : pqSettings (withLivenessDefaults s)=some (l++(k,v')::m)) :
    ¬OperatorWins s (l++[(k,v)]) := by
  rintro ⟨out,hread,-,added,rfl,-⟩
  have hsame := Option.some.inj (hread.symm.trans h)
  rw [List.append_assoc] at hsame
  have hhead := (List.cons.inj (List.append_cancel_left hsame)).1
  exact hne (Prod.mk.inj hhead).2.symm

/-- For every text that libpq reads as settings: those of the operator win just when nothing is
appended to what it reads, or the text is closed and no keyword that it sets escapes the search. -/
theorem operator_settings_win_iff {conninfo : Octets} {set : List Setting}
    (h : pqSettings conninfo=some set) : OperatorWins conninfo set ↔
      0∈conninfo ∨ missing conninfo=[] ∨
        (closedEnd conninfo=true ∧ ∀ kv∈missing conninfo,settingOf set kv.1=none) := by
  obtain ⟨t,happ,hzero⟩ := exists_appended conninfo
  by_cases hz : 0∈conninfo
  · refine iff_of_true (operatorWins_of_same ?_) (Or.inl hz)
    rw [pqSettings,happ,X509.cString_append_of_mem hz]
    exact h
  · have hself : cString conninfo=conninfo := X509.cString_eq_self_iff.mpr hz
    have hout : cString (withLivenessDefaults conninfo)=withLivenessDefaults conninfo := by
      rw [X509.cString_eq_self_iff,happ,List.mem_append]
      exact fun hmem => hmem.elim hz hzero
    have hset : parse conninfo=some set := by rw [← h,pqSettings,hself]
    cases hm : missing conninfo with
    | nil =>
      refine iff_of_true (operatorWins_of_same ?_) (Or.inr (Or.inl rfl))
      rw [pqSettings,hout,withLivenessDefaults_of_none hm,hset]
    | cons e m =>
      have hsimple : ∀ d∈e::m,Simple d := hm ▸ simple_missing
      have hparse : pqSettings (withLivenessDefaults conninfo)=
          parse (separated conninfo++write e++writeAll m) := by
        rw [pqSettings,hout,withLivenessDefaults_of_cons hm]
      obtain ⟨hclosed,hall⟩|⟨hopen,l,k,v,v',rfl,hne,hlost⟩ := parse_defaults hset
        (hsimple e List.mem_cons_self) fun d hd => hsimple d (List.mem_cons_of_mem e hd)
      · rw [hall,← hm] at hparse
        rw [operatorWins_iff_of_appended hparse,hm]
        simp [hz,hclosed]
      · rw [hlost] at hparse
        refine iff_of_false (not_operatorWins_of_changed hne hparse) ?_
        simp [hz,hopen]

/-- `keepalives=0` is found, and the other four are appended. -/
theorem operator_settings_win_iff_found :
    OperatorWins (octets "host=db keepalives=0")
      [(octets "host",octets "db"),(octets "keepalives",octets "0")] := by
  have hread : pqSettings (octets "host=db keepalives=0")=
      some [(octets "host",octets "db"),(octets "keepalives",octets "0")] := by decide
  refine (operator_settings_win_iff hread).mpr (Or.inr (Or.inr ⟨by decide,?_⟩))
  decide

/-- With spaces around its equal sign it is not, and the default behind it counts. -/
theorem spaced_setting_is_overridden :
    pqSettings (octets "host=db keepalives = 0")=
      some [(octets "host",octets "db"),(octets "keepalives",octets "0")] ∧
    (pqSettings (withLivenessDefaults (octets "host=db keepalives = 0"))).bind
      (fun out => settingOf out (octets "keepalives"))=some (octets "1") ∧
    ¬OperatorWins (octets "host=db keepalives = 0")
      [(octets "host",octets "db"),(octets "keepalives",octets "0")] := by
  have hvalue : (pqSettings (withLivenessDefaults (octets "host=db keepalives = 0"))).bind
      (fun out => settingOf out (octets "keepalives"))=some (octets "1") := by decide +kernel
  refine ⟨by decide,hvalue,?_⟩
  rintro ⟨out,hread,hkeep,-⟩
  have hzero := hkeep (octets "keepalives") (octets "0") (by decide)
  rw [hread,Option.bind_some,hzero] at hvalue
  exact absurd hvalue (by decide)

end FastPki.Db.Liveness
