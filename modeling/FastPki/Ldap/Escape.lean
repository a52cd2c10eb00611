import FastPki.Framework.SearchFilter
import FastPki.Ldap.Groups

namespace FastPki.Ldap

open X509 Auth
open Rfc4514 (parseDn Rdn Written endsOk)
open Rfc4515 (readFilter readFilters readFrom assertionValue)

/-- The texts of the filters that are sent, built around the escaped name and DN. -/
def userFilterText (username : Octets) : Octets :=
  octets "(|(sAMAccountName="++filterEscape username++octets ")(uid="++filterEscape username++
    octets ")(cn="++filterEscape username++octets "))"

def directFilterText (p : LdapProvider) (userDn username : Octets) : Octets :=
  octets "(&"++groupFilterText p++octets "(|(member="++filterEscape userDn++
    octets ")(uniqueMember="++filterEscape userDn++octets ")(memberUid="++filterEscape username++
    octets ")))"

def nestedFilterText (p : LdapProvider) (userDn : Octets) : Octets :=
  octets "(&"++groupFilterText p++octets "(member:1.2.840.113556.1.4.1941:="++
    filterEscape userDn++octets "))"

/-- A directory reads the requests for a user as they are meant, with the name and the DN as they
are. The DN is the one built from the name, or one that the directory has named: then it is
UTF-8. -/
structure ShapeKept (p : LdapProvider) (u b : Octets) (rdns : List Rdn) : Prop where
  bind : parseDn (bindDn u b)=some ([⟨octets "CN",.text u⟩]::rdns)
  user : readFilter (userFilterText u)=
    some (.or [.equality sAMAccountName u,.equality uid u,.equality cn u])
  groups : ∃ gs,readFilters (groupFilterText p)=some gs ∧
    ∀ dn,dn=bindDn u b ∨ validUtf8 dn=true →
      readFilter (directFilterText p dn u)=some (.and (gs++[.or
        [.equality member dn,.equality uniqueMember dn,.equality memberUid u]])) ∧
      readFilter (nestedFilterText p dn)=some (.and (gs++[.extensible (some member) false
        (some (octets "1.2.840.113556.1.4.1941")) dn]))

section FilterEscape

theorem mem_filterSpecials {c : UInt8} :
    c∈octets "*()\\\x00" ↔ c∈[0x2a,0x28,0x29,0x5c,0x00] := by
  have heq : octets "*()\\\x00"=[0x2a,0x28,0x29,0x5c,0x00] := by decide
  rw [heq]

theorem hexPair_hexDigit (c : UInt8) :
    Rfc4514.hexPair (Hex.digit (c.toNat/16)) (Hex.digit (c.toNat%16))=some c := by
  have hlt : c.toNat<256 := c.toNat_lt
  have hhigh : Hex.value (Hex.digit (c.toNat/16))=some (c.toNat/16) := Hex.value_digit (by omega)
  have hlow : Hex.value (Hex.digit (c.toNat%16))=some (c.toNat%16) := Hex.value_digit (by omega)
  have hval : c.toNat/16*16+c.toNat%16=c.toNat := by omega
  rw [Rfc4514.hexPair,hhigh,hlow]
  change some (UInt8.ofNat (c.toNat/16*16+c.toNat%16))=some c
  rw [hval,UInt8.ofNat_toNat]

/-- The value of an escaped text is the text. -/
theorem assertionValue_filterEscape (s : Octets) : assertionValue (filterEscape s)=some s := by
  induction s with
  | nil => rfl
  | cons c s ih =>
    rw [filterEscape,List.flatMap_cons,← filterEscape]
    split_ifs with hc
    · change assertionValue (Rfc4514.esc::_::_::filterEscape s)=_
      rw [Rfc4515.assertionValue_escaped,hexPair_hexDigit,ih]
      rfl
    · have hplain := mt mem_filterSpecials.mpr hc
      have hnormal : Rfc4515.normal c=true := by
        simp only [Rfc4515.normal,decide_eq_true_eq]
        intro hin
        simp only [List.mem_cons,List.not_mem_nil,or_false] at hin hplain
        tauto
      have hesc : c≠Rfc4514.esc := by
        rintro rfl
        exact hplain (by decide)
      rw [List.singleton_append,Rfc4515.assertionValue_normal hesc hnormal,ih]
      rfl

theorem hexByte_ascii (c : UInt8) : ∀ x∈hexByte c,x<0x80 := by
  have hall : ∀ n∈List.range 16,Hex.digit n<0x80 := by decide
  have hlt : c.toNat<256 := c.toNat_lt
  intro x hx
  simp only [hexByte,List.mem_cons,List.not_mem_nil,or_false] at hx
  obtain rfl|rfl|rfl := hx
  · decide
  · exact hall _ (List.mem_range.mpr (by omega))
  · exact hall _ (List.mem_range.mpr (by omega))

theorem spells_filterEscape (s : Octets) : Spells s (filterEscape s) := by
  induction s with
  | nil => exact Spells.nil
  | cons c s ih =>
    rw [filterEscape,List.flatMap_cons,← filterEscape]
    split_ifs with hc
    · have hascii : c<0x80 := by
        have hin := mem_filterSpecials.mp hc
        simp only [List.mem_cons,List.not_mem_nil,or_false] at hin
        obtain rfl|rfl|rfl|rfl|rfl := hin <;> decide
      exact Spells.escaped hascii (by simp [hexByte]) (hexByte_ascii c) ih
    · exact Spells.raw c ih

end FilterEscape

section DnEscape

/-- How one octet of a name of length `n` is written. -/
def dnWord (n : Nat) (x : UInt8 × Nat) : Octets :=
  if x.1 ∈ octets "\"+,;<>\\" then [backslash,x.1]
  else if x.1 = 0x23 then if x.2 = 0 then [backslash,x.1] else [x.1]
  else if x.1 = 0x20 then if x.2 = 0 ∨ x.2+1 = n then [backslash,x.1] else [x.1]
  else if x.1 = 0 then octets "\\00"
  else [x.1]

theorem escapeDnValue_eq (v : Octets) : escapeDnValue v=v.zipIdx.flatMap (dnWord v.length) := rfl

theorem mem_dnSpecials {c : UInt8} :
    c∈octets "\"+,;<>\\" ↔ c∈[0x22,0x2b,0x2c,0x3b,0x3c,0x3e,0x5c] := by
  have heq : octets "\"+,;<>\\"=[0x22,0x2b,0x2c,0x3b,0x3c,0x3e,0x5c] := by decide
  rw [heq]

theorem dnWord_cases (n : Nat) (c : UInt8) (i : Nat) :
    (dnWord n (c,i)=[backslash,c] ∧ Rfc4514.special c=true ∧ c<0x80) ∨
      (dnWord n (c,i)=[backslash,0x30,0x30] ∧ c=0) ∨
      (dnWord n (c,i)=[c] ∧ Rfc4514.stringchar c=true) := by
  by_cases hs : c∈octets "\"+,;<>\\"
  · have hin := mem_dnSpecials.mp hs
    simp only [List.mem_cons,List.not_mem_nil,or_false] at hin
    refine Or.inl ⟨by simp [dnWord,hs],?_⟩
    obtain rfl|rfl|rfl|rfl|rfl|rfl|rfl := hin <;> decide
  · by_cases hzero : c=0
    · refine Or.inr (Or.inl ⟨?_,hzero⟩)
      rw [hzero]
      have hplain : (0 : UInt8)∉octets "\"+,;<>\\" := by decide
      have htext : octets "\\00"=[backslash,0x30,0x30] := by decide
      have hother : ¬(0 : UInt8)=0x23 ∧ ¬(0 : UInt8)=0x20 := by decide
      rw [dnWord,if_neg hplain,if_neg hother.1,if_neg hother.2,if_pos rfl,htext]
    · have hstring : Rfc4514.stringchar c=true := by
        have hout := mt mem_dnSpecials.mpr hs
        simp only [List.mem_cons,List.not_mem_nil,or_false] at hout
        simp only [Rfc4514.stringchar,decide_eq_true_eq,List.mem_cons,List.not_mem_nil,or_false]
        intro hin
        obtain h|h := hin
        · exact hzero h
        · exact hout h
      simp only [dnWord,hs,hzero,if_false]
      split_ifs with hsharp hfirst hspace hends
      · exact Or.inl ⟨rfl,by rw [hsharp]; decide⟩
      · exact Or.inr (Or.inr ⟨rfl,hstring⟩)
      · exact Or.inl ⟨rfl,by rw [hspace]; decide⟩
      · exact Or.inr (Or.inr ⟨rfl,hstring⟩)
      · exact Or.inr (Or.inr ⟨rfl,hstring⟩)

/-- An octet with whether it stands for itself. -/
def dnUnit (n : Nat) (x : UInt8 × Nat) : Bool × UInt8 := (decide (dnWord n x = [x.1]),x.1)

theorem written_dnWords (n : Nat) (xs : List (UInt8 × Nat)) :
    Written (xs.map (dnUnit n)) (xs.flatMap (dnWord n)) := by
  induction xs with
  | nil => exact Written.nil
  | cons x xs ih =>
    obtain ⟨c,i⟩ := x
    rw [List.map_cons,List.flatMap_cons]
    obtain ⟨hword,hspecial,_⟩|⟨hword,rfl⟩|⟨hword,hstring⟩ := dnWord_cases n c i
    · have hunit : dnUnit n (c,i)=(false,c) := by simp [dnUnit,hword]
      rw [hunit,hword]
      exact Written.pair hspecial ih
    · have hunit : dnUnit n (0,i)=(false,0) := by simp [dnUnit,hword]
      rw [hunit,hword]
      exact Written.hex (by decide) ih
    · have hunit : dnUnit n (c,i)=(true,c) := by simp [dnUnit,hword]
      rw [hunit,hword]
      exact Written.raw hstring ih

theorem spells_dnWords (n : Nat) (xs : List (UInt8 × Nat)) :
    Spells (xs.map (·.1)) (xs.flatMap (dnWord n)) := by
  induction xs with
  | nil => exact Spells.nil
  | cons x xs ih =>
    obtain ⟨c,i⟩ := x
    rw [List.map_cons,List.flatMap_cons]
    obtain ⟨hword,_,hascii⟩|⟨hword,rfl⟩|⟨hword,_⟩ := dnWord_cases n c i
    · rw [hword]
      refine Spells.escaped hascii (by simp) (fun x hx => ?_) ih
      simp only [List.mem_cons,List.not_mem_nil,or_false] at hx
      obtain rfl|rfl := hx
      · decide
      · exact hascii
    · rw [hword]
      have hascii : (0 : UInt8)<0x80 := by decide
      refine Spells.escaped hascii (by simp) (fun x hx => ?_) ih
      simp only [List.mem_cons,List.not_mem_nil,or_false] at hx
      obtain rfl|rfl|rfl := hx <;> decide
    · rw [hword]
      exact Spells.raw c ih

variable (u : Octets)

/-- The octets of an escaped name, each with whether it stands for itself. -/
def dnUnits : List (Bool × UInt8) := u.zipIdx.map (dnUnit u.length)

theorem dnUnits_snd : (dnUnits u).map (·.2)=u := by
  rw [dnUnits,List.map_map]
  exact List.zipIdx_map_fst ..

theorem dnUnits_getElem? (k : Nat) :
    (dnUnits u)[k]?=u[k]?.map fun c => dnUnit u.length (c,k) := by
  rw [dnUnits,List.getElem?_map,List.getElem?_zipIdx,Option.map_map]
  simp [Function.comp_def]

/-- A space and a sharp at an end are escaped. -/
theorem endsOk_dnUnits : endsOk (dnUnits u)=true := by
  have hraw (k : Nat) (c : UInt8) (h : (dnUnits u)[k]?=some (true,c)) :
      dnWord u.length (c,k)=[c] ∧ k<u.length := by
    rw [dnUnits_getElem?] at h
    obtain ⟨c',hc',hunit⟩ := Option.map_eq_some_iff.mp h
    obtain rfl : c'=c := congrArg Prod.snd hunit
    refine ⟨by simpa [dnUnit] using hunit,?_⟩
    exact (List.getElem?_eq_some_iff.mp hc').1
  have hlen : (dnUnits u).length=u.length := by simp [dnUnits]
  simp only [endsOk,Bool.and_eq_true,decide_eq_true_eq,ne_eq]
  rw [List.head?_eq_getElem?,List.getLast?_eq_getElem?,hlen]
  refine ⟨⟨fun h => ?_,fun h => ?_⟩,fun h => ?_⟩
  · obtain ⟨hword,_⟩ := hraw _ _ h
    exact absurd hword (by simp [dnWord,Rfc4514.space])
  · obtain ⟨hword,_⟩ := hraw _ _ h
    exact absurd hword (by simp [dnWord,Rfc4514.sharp])
  · obtain ⟨hword,hlt⟩ := hraw _ _ h
    have hlast : u.length-1+1=u.length := by omega
    simp [dnWord,hlast,Rfc4514.space] at hword

theorem written_escapeDnValue : Written (dnUnits u) (escapeDnValue u) := by
  rw [escapeDnValue_eq]
  exact written_dnWords u.length u.zipIdx

theorem spells_escapeDnValue : Spells u (escapeDnValue u) := by
  have hspells := spells_dnWords u.length u.zipIdx
  rwa [List.zipIdx_map_fst,← escapeDnValue_eq] at hspells

theorem bindDn_eq (b : Octets) :
    bindDn u b=octets "CN"++Rfc4514.equals::escapeDnValue u++Rfc4514.comma::b := by
  have htype : octets "CN="=octets "CN"++[Rfc4514.equals] := by decide
  have hcomma : octets ","=[Rfc4514.comma] := by decide
  rw [bindDn,htype,hcomma]
  simp only [List.append_assoc,List.cons_append,List.nil_append]

variable {u} {b : Octets}

theorem validUtf8_bindDn (hu : validUtf8 u=true) (hb : validUtf8 b=true) :
    validUtf8 (bindDn u b)=true := by
  have hescaped : validUtf8 (escapeDnValue u)=true := by
    rw [(spells_escapeDnValue u).validUtf8_eq,hu]
  have htype : validUtf8 (octets "CN=")=true := by decide
  have hcomma : validUtf8 (octets ",")=true := by decide
  exact validUtf8_append (validUtf8_append (validUtf8_append htype hescaped) hcomma) hb

/-- The name is the first RDN's value, as it is. -/
theorem parseDn_bindDn (hu : validUtf8 u=true) (hne : b≠[]) {rdns : List Rdn}
    (hb : parseDn b=some rdns) :
    parseDn (bindDn u b)=some ([⟨octets "CN",.text u⟩]::rdns) := by
  have hvalid := validUtf8_bindDn hu (Rfc4514.validUtf8_of_parseDn hb)
  rw [bindDn_eq] at hvalid ⊢
  rw [Rfc4514.parseDn_keystring (by decide) (written_escapeDnValue u) (endsOk_dnUnits u) hvalid hne
    hb,dnUnits_snd]

theorem parseDn_bindDn_nil : parseDn (bindDn u [])=none := by
  rw [bindDn_eq]
  exact Rfc4514.parseDn_trailing_comma (by decide) (written_escapeDnValue u) (endsOk_dnUnits u)

end DnEscape

section Filters

open Rfc4515 (State Op lparen rparen)

/-- The attributes that are asked for. -/
def askedAttrs : List Octets := [sAMAccountName,uid,cn,member,uniqueMember,memberUid]

/-- An item `(lhs=value)` around an escaped text, and a disjunction of equalities. -/
def itemText (lhs v : Octets) : Octets := lparen::lhs++Rfc4514.equals::filterEscape v++[rparen]

def orText (items : List (Octets × Octets)) : Octets :=
  octets "(|"++items.flatMap (fun x => itemText x.1 x.2)++[rparen]

def andText (p : LdapProvider) (text : Octets) : Octets :=
  octets "(&"++groupFilterText p++text++[rparen]

def chainName : Octets := octets "member:1.2.840.113556.1.4.1941"

def asEquality (x : Octets × Octets) : Rfc4515.Filter := .equality x.1 x.2

variable {frames : List (Op × List Rfc4515.Filter)} {bottom fs : List Rfc4515.Filter} {op : Op}
  {attr : Octets} {items : List (Octets × Octets)} {p : LdapProvider}

theorem readFrom_equality (hattr : attr∈askedAttrs) (v : Octets) :
    readFrom ⟨.gap,frames,bottom⟩ (itemText attr v)=
      some (State.add ⟨.gap,frames,bottom⟩ (.equality attr v)) := by
  have hall : ∀ attr∈askedAttrs,Rfc4515.nameOk attr=true ∧
      Rfc4515.attributeDescription attr=true ∧
      ∀ c∈attr.getLast?,c∉[0x7e,0x3e,0x3c,Rfc4515.colon] := by decide +kernel
  obtain ⟨hname,hdesc,hlast⟩ := hall attr hattr
  have hv := assertionValue_filterEscape v
  exact Rfc4515.readFrom_named hname hv (Rfc4515.itemWith_equality hlast hdesc hv)

theorem readFrom_equalities (hitems : ∀ x∈items,x.1∈askedAttrs) :
    readFrom ⟨.gap,(op,fs)::frames,bottom⟩ (items.flatMap fun x => itemText x.1 x.2)=
      some ⟨.gap,(op,fs++items.map asEquality)::frames,bottom⟩ := by
  induction items generalizing fs with
  | nil => simp [readFrom]
  | cons x items ih =>
    rw [List.flatMap_cons,Rfc4515.readFrom_append,
      readFrom_equality (hitems x List.mem_cons_self),Option.bind_some]
    change readFrom ⟨.gap,(op,fs++[asEquality x])::frames,bottom⟩ _=_
    rw [ih fun y hy => hitems y (List.mem_cons_of_mem _ hy)]
    simp

theorem readFrom_orText (hne : items≠[]) (hitems : ∀ x∈items,x.1∈askedAttrs) :
    readFrom ⟨.gap,frames,bottom⟩ (orText items)=
      some (State.add ⟨.gap,frames,bottom⟩ (.or (items.map asEquality))) := by
  have hopen : readFrom ⟨.gap,frames,bottom⟩ (octets "(|")=some ⟨.gap,(.or,[])::frames,bottom⟩ := rfl
  have hbuild : Op.or.build (items.map asEquality)=some (.or (items.map asEquality)) := by
    simp [Op.build,hne]
  rw [orText,List.append_assoc,Rfc4515.readFrom_append,hopen,Option.bind_some,
    Rfc4515.readFrom_append,readFrom_equalities hitems,Option.bind_some,List.nil_append,
    Rfc4515.readFrom_close hbuild]

/-- The rule of a chained match stands before the value. -/
theorem readFrom_chain (v : Octets) :
    readFrom ⟨.gap,frames,bottom⟩ (itemText (chainName++[Rfc4515.colon]) v)=
      some (State.add ⟨.gap,frames,bottom⟩ (.extensible (some member) false
        (some (octets "1.2.840.113556.1.4.1941")) v)) := by
  have hname : Rfc4515.nameOk (chainName++[Rfc4515.colon])=true := by decide
  have hv := assertionValue_filterEscape v
  have hsplit : chainName.splitOn Rfc4515.colon=[member,octets "1.2.840.113556.1.4.1941"] := by
    decide
  have hparts : member≠[] ∧ Rfc4515.attributeDescription member=true ∧
      Rfc4515.dnKeyword (octets "1.2.840.113556.1.4.1941")=false ∧
      Rfc4514.attributeType (octets "1.2.840.113556.1.4.1941")=true := by decide
  have hext : Rfc4515.extensibleOf chainName v=some (.extensible (some member) false
      (some (octets "1.2.840.113556.1.4.1941")) v) := by
    rw [Rfc4515.extensibleOf,hsplit]
    simp [hparts]
  have hitem := @Rfc4515.itemWith_extensible _ chainName _ hv
  exact Rfc4515.readFrom_named hname hv (hitem.trans hext)

/-- What is read behind the configured group filter. -/
theorem readFrom_andText {gs : List Rfc4515.Filter} {f : Rfc4515.Filter} {text : Octets}
    (hgs : readFilters (groupFilterText p)=some gs)
    (htext : ∀ frames bottom,readFrom ⟨.gap,frames,bottom⟩ text=
      some (State.add ⟨.gap,frames,bottom⟩ f)) :
    readFrom ⟨.gap,[],[]⟩ (andText p text)=some ⟨.gap,[],[.and (gs++[f])]⟩ := by
  have hopen : readFrom ⟨.gap,[],[]⟩ (octets "(&")=some ⟨.gap,[(.and,[])],[]⟩ := rfl
  have hgroup := @Rfc4515.readFrom_readFilters .and [] [] [] _ _ hgs
  have hbuild : Op.and.build (gs++[f])=some (.and (gs++[f])) := by simp [Op.build]
  rw [andText,List.append_assoc,List.append_assoc,Rfc4515.readFrom_append,hopen,Option.bind_some,
    Rfc4515.readFrom_append,hgroup.2,Option.bind_some,Rfc4515.readFrom_append,htext,
    Option.bind_some]
  exact Rfc4515.readFrom_close hbuild

theorem validUtf8_itemText {lhs v : Octets} (hlhs : validUtf8 lhs=true) (hv : validUtf8 v=true) :
    validUtf8 (itemText lhs v)=true := by
  have hescaped : validUtf8 (filterEscape v)=true := by
    rw [(spells_filterEscape v).validUtf8_eq,hv]
  have hlparen : validUtf8 [lparen]=true := by decide
  have hequals : validUtf8 [Rfc4514.equals]=true := by decide
  have hrparen : validUtf8 [rparen]=true := by decide
  exact validUtf8_append (validUtf8_append (validUtf8_append hlparen hlhs)
    (validUtf8_append hequals hescaped)) hrparen

theorem validUtf8_orText (hitems : ∀ x∈items,x.1∈askedAttrs)
    (hvalues : ∀ x∈items,validUtf8 x.2=true) : validUtf8 (orText items)=true := by
  have hall : ∀ attr∈askedAttrs,validUtf8 attr=true := by decide
  have hopen : validUtf8 (octets "(|")=true := by decide
  have hrparen : validUtf8 [rparen]=true := by decide
  have hinner : validUtf8 (items.flatMap fun x => itemText x.1 x.2)=true := by
    induction items with
    | nil => rfl
    | cons x items ih =>
      have hattr := hall x.1 (hitems x List.mem_cons_self)
      exact validUtf8_append (validUtf8_itemText hattr (hvalues x List.mem_cons_self))
        (ih (fun y hy => hitems y (List.mem_cons_of_mem _ hy))
          fun y hy => hvalues y (List.mem_cons_of_mem _ hy))
  exact validUtf8_append (validUtf8_append hopen hinner) hrparen

theorem readFilter_andText {gs : List Rfc4515.Filter} {f : Rfc4515.Filter} {text : Octets}
    (hgs : readFilters (groupFilterText p)=some gs) (hvalid : validUtf8 text=true)
    (htext : ∀ frames bottom,readFrom ⟨.gap,frames,bottom⟩ text=
      some (State.add ⟨.gap,frames,bottom⟩ f)) :
    readFilter (andText p text)=some (.and (gs++[f])) := by
  have hopen : validUtf8 (octets "(&")=true := by decide
  have hrparen : validUtf8 [rparen]=true := by decide
  have hgroup := (@Rfc4515.readFrom_readFilters .and [] [] [] _ _ hgs).1
  exact Rfc4515.readFilter_eq_some
    (validUtf8_append (validUtf8_append (validUtf8_append hopen hgroup) hvalid) hrparen)
    (readFrom_andText hgs htext)

end Filters

section Texts

open Rfc4515 (lparen rparen)

variable {u dn : Octets} {p : LdapProvider}

theorem userFilterText_eq : userFilterText u=orText [(sAMAccountName,u),(uid,u),(cn,u)] := by
  have hfirst : octets "(|(sAMAccountName="=
      octets "(|"++lparen::sAMAccountName++[Rfc4514.equals] := by decide
  have hsecond : octets ")(uid="=rparen::lparen::uid++[Rfc4514.equals] := by decide
  have hthird : octets ")(cn="=rparen::lparen::cn++[Rfc4514.equals] := by decide
  have hclose : octets "))"=[rparen,rparen] := by decide
  rw [userFilterText,hfirst,hsecond,hthird,hclose,orText]
  simp [itemText]

theorem directFilterText_eq : directFilterText p dn u=
    andText p (orText [(member,dn),(uniqueMember,dn),(memberUid,u)]) := by
  have hfirst : octets "(|(member="=octets "(|"++lparen::member++[Rfc4514.equals] := by decide
  have hsecond : octets ")(uniqueMember="=rparen::lparen::uniqueMember++[Rfc4514.equals] := by
    decide
  have hthird : octets ")(memberUid="=rparen::lparen::memberUid++[Rfc4514.equals] := by decide
  have hclose : octets ")))"=[rparen,rparen,rparen] := by decide
  rw [directFilterText,hfirst,hsecond,hthird,hclose,andText,orText]
  simp [itemText]

theorem nestedFilterText_eq :
    nestedFilterText p dn=andText p (itemText (chainName++[Rfc4515.colon]) dn) := by
  have hfirst : octets "(member:1.2.840.113556.1.4.1941:="=
      lparen::(chainName++[Rfc4515.colon])++[Rfc4514.equals] := by decide
  have hclose : octets "))"=[rparen,rparen] := by decide
  rw [nestedFilterText,hfirst,hclose,andText]
  simp [itemText]

theorem readFilter_userFilterText (hu : validUtf8 u=true) : readFilter (userFilterText u)=
    some (.or [.equality sAMAccountName u,.equality uid u,.equality cn u]) := by
  have hitems : ∀ x∈[(sAMAccountName,u),(uid,u),(cn,u)],x.1∈askedAttrs := by simp [askedAttrs]
  have hvalues : ∀ x∈[(sAMAccountName,u),(uid,u),(cn,u)],validUtf8 x.2=true := by simp [hu]
  rw [userFilterText_eq]
  exact Rfc4515.readFilter_eq_some (validUtf8_orText hitems hvalues)
    (readFrom_orText (by simp) hitems)

theorem readFilter_directFilterText {gs : List Rfc4515.Filter}
    (hgs : readFilters (groupFilterText p)=some gs) (hdn : validUtf8 dn=true)
    (hu : validUtf8 u=true) :
    readFilter (directFilterText p dn u)=some (.and (gs++[Rfc4515.Filter.or
      [.equality member dn,.equality uniqueMember dn,.equality memberUid u]])) := by
  have hitems : ∀ x∈[(member,dn),(uniqueMember,dn),(memberUid,u)],x.1∈askedAttrs := by
    simp [askedAttrs]
  have hvalues : ∀ x∈[(member,dn),(uniqueMember,dn),(memberUid,u)],validUtf8 x.2=true := by
    simp [hdn,hu]
  rw [directFilterText_eq]
  exact readFilter_andText hgs (validUtf8_orText hitems hvalues)
    fun _ _ => readFrom_orText (by simp) hitems

theorem readFilter_nestedFilterText {gs : List Rfc4515.Filter}
    (hgs : readFilters (groupFilterText p)=some gs) (hdn : validUtf8 dn=true) :
    readFilter (nestedFilterText p dn)=some (.and (gs++[Rfc4515.Filter.extensible (some member) false
      (some (octets "1.2.840.113556.1.4.1941")) dn])) := by
  have hname : validUtf8 (chainName++[Rfc4515.colon])=true := by decide
  rw [nestedFilterText_eq]
  exact readFilter_andText hgs (validUtf8_itemText hname hdn) fun _ _ => readFrom_chain dn

/-- A name that is not UTF-8 leaves a filter that is not. -/
theorem validUtf8_of_userFilterText (h : validUtf8 (userFilterText u)=true) :
    validUtf8 u=true := by
  have htext : userFilterText u=octets "(|(sAMAccountName="++(filterEscape u++
      rparen::(octets "(uid="++filterEscape u++octets ")(cn="++filterEscape u++octets "))")) := by
    have hsecond : octets ")(uid="=rparen::octets "(uid=" := by decide
    rw [userFilterText,hsecond]
    simp only [List.append_assoc,List.cons_append]
  have hascii : (octets "(|(sAMAccountName=").all (· < 0x80)=true := by decide
  rw [htext] at h
  have hescaped := validUtf8_of_append (fun c hc => by simpa using List.all_eq_true.mp hascii c hc)
    (by decide) h
  rwa [(spells_filterEscape u).validUtf8_eq] at hescaped

end Texts

/-- The requests for a user keep their shape exactly when the name is UTF-8, the base is not empty
and the configured filter is one. -/
theorem request_shape_kept_iff (p : LdapProvider) (u b : Octets) {rdns : List Rdn}
    (hb : parseDn b=some rdns) :
    ShapeKept p u b rdns ↔ validUtf8 u=true ∧ b≠[] ∧ ∃ gs,readFilters (groupFilterText p)=some gs := by
  constructor
  · intro h
    refine ⟨validUtf8_of_userFilterText (Rfc4515.validUtf8_of_readFilter h.user),?_,?_⟩
    · rintro rfl
      have hbind := h.bind
      rw [parseDn_bindDn_nil] at hbind
      cases hbind
    · obtain ⟨gs,hgs,_⟩ := h.groups
      exact ⟨gs,hgs⟩
  · rintro ⟨hu,hne,gs,hgs⟩
    refine ⟨parseDn_bindDn hu hne hb,readFilter_userFilterText hu,gs,hgs,fun dn hdn => ?_⟩
    have hvalid : validUtf8 dn=true := by
      obtain rfl|hdn := hdn
      · exact validUtf8_bindDn hu (Rfc4514.validUtf8_of_parseDn hb)
      · exact hdn
    exact ⟨readFilter_directFilterText hgs hvalid hu,readFilter_nestedFilterText hgs hvalid⟩

/-- A name with a comma and a trailing `#1 `, under the filter that is used by default. -/
theorem request_shape_kept_alice :
    parseDn (octets "OU=staff,DC=corp")=
        some [[⟨octets "OU",.text (octets "staff")⟩],[⟨octets "DC",.text (octets "corp")⟩]] ∧
      ShapeKept corp (octets " alice, #1 ") (octets "OU=staff,DC=corp")
        [[⟨octets "OU",.text (octets "staff")⟩],[⟨octets "DC",.text (octets "corp")⟩]] := by
  have hb : parseDn (octets "OU=staff,DC=corp")=
      some [[⟨octets "OU",.text (octets "staff")⟩],[⟨octets "DC",.text (octets "corp")⟩]] := by
    decide
  refine ⟨hb,(request_shape_kept_iff corp _ _ hb).mpr ⟨by decide,by decide,?_⟩⟩
  exact Option.isSome_iff_exists.mp (by decide +kernel)

/-- An octet that no UTF-8 has goes into the filters as it is. -/
theorem request_shape_lost_latin1 :
    parseDn (octets "OU=staff,DC=corp")=
        some [[⟨octets "OU",.text (octets "staff")⟩],[⟨octets "DC",.text (octets "corp")⟩]] ∧
      ¬ShapeKept corp (octets "J"++[0xfc]++octets "rgen") (octets "OU=staff,DC=corp")
        [[⟨octets "OU",.text (octets "staff")⟩],[⟨octets "DC",.text (octets "corp")⟩]] := by
  refine ⟨by decide,fun h => ?_⟩
  have hvalid := Rfc4515.validUtf8_of_readFilter h.user
  exact absurd hvalid (by decide)

end FastPki.Ldap
