import FastPki.Framework.Sextets
import Mathlib.Data.List.Nodup
import Mathlib.Tactic.Common

namespace FastPki

def base64Alphabet : List Char :=
  "ABCDEFGHIJKLMNOPQRSTUVWXYZabcdefghijklmnopqrstuvwxyz0123456789+/".toList

/-- The character for six bits. -/
def base64Char (n : Nat) : Char := base64Alphabet.getD n 'A'

/-- Three octets are written as four characters; the last group is padded. -/
def base64 : List UInt8 → List Char
  | [] => []
  | [a] => [base64Char (a.toNat/4),base64Char (a.toNat%4*16),'=','=']
  | [a,b] => [base64Char (a.toNat/4),base64Char (a.toNat%4*16+b.toNat/16),
      base64Char (b.toNat%16*4),'=']
  | a::b::c::rest => base64Char (a.toNat/4)::base64Char (a.toNat%4*16+b.toNat/16)::
      base64Char (b.toNat%16*4+c.toNat/64)::base64Char (c.toNat%64)::base64 rest

/-- A line break after every `width` characters that are followed by another; `left` is what fits into
the line at hand. -/
def wrapLines (width : Nat) : Nat → List Char → List Char
  | _,[] => []
  | 0,c::cs => '\n'::c::wrapLines width (width-1) cs
  | left+1,c::cs => c::wrapLines width left cs

theorem base64Alphabet_eq : base64Alphabet=
    ['A','B','C','D','E','F','G','H','I','J','K','L','M','N','O','P','Q','R','S','T',
     'U','V','W','X','Y','Z','a','b','c','d','e','f','g','h','i','j','k','l','m','n',
     'o','p','q','r','s','t','u','v','w','x','y','z','0','1','2','3','4','5','6','7',
     '8','9','+','/'] :=
  String.toList_ofList

theorem length_base64Alphabet : base64Alphabet.length=64 := by
  rw [base64Alphabet_eq]
  rfl

theorem base64Char_injective {n m : Nat} (hn : n<64) (hm : m<64) (h : base64Char n=base64Char m) :
    n=m := by
  have hdistinct : (base64Alphabet.map Char.toNat).Nodup := by
    rw [base64Alphabet_eq]
    decide +kernel
  rw [← length_base64Alphabet] at hn hm
  rw [base64Char,base64Char,List.getD_eq_getElem?_getD,List.getD_eq_getElem?_getD,
    List.getElem?_eq_getElem hn,List.getElem?_eq_getElem hm,Option.getD_some,Option.getD_some] at h
  exact (List.Nodup.of_map Char.toNat hdistinct).getElem_inj_iff.mp h

/-- No character of the alphabet is one of these. -/
theorem base64Char_ne {c : Char} (h : c∉base64Alphabet) (n : Nat) : base64Char n≠c := by
  intro heq
  have hA : 'A'∈base64Alphabet := by
    rw [base64Alphabet_eq]
    decide
  apply h
  rw [← heq,base64Char,List.getD_eq_getElem?_getD]
  cases hget : base64Alphabet[n]? with
  | none => exact hA
  | some d => exact List.mem_of_getElem? hget

theorem base64Char_ne_pad (n : Nat) : base64Char n ≠ '=' := by
  apply base64Char_ne
  rw [base64Alphabet_eq]
  decide

theorem not_mem_base64 {c : Char} (h : c∉base64Alphabet) (hpad : c ≠ '=') (x : List UInt8) :
    c∉base64 x := by
  have hne : ∀ n,c≠base64Char n := fun n => (base64Char_ne h n).symm
  induction x using base64.induct with
  | case1 => simp [base64]
  | case2 a => simp [base64,hne,hpad]
  | case3 a b => simp [base64,hne,hpad]
  | case4 a b c' rest ih => simp [base64,hne,ih]

/-- Without its padding the text is the sextets, each as a character. -/
theorem filter_base64 (x : List UInt8) : (base64 x).filter (· ≠ '=')=(sextets x).map base64Char := by
  induction x using base64.induct with
  | case1 => rfl
  | case2 a => simp [base64,sextets,base64Char_ne_pad]
  | case3 a b => simp [base64,sextets,base64Char_ne_pad]
  | case4 a b c rest ih => simpa [base64,sextets,base64Char_ne_pad] using ih

theorem map_base64Char_injective {vs ws : List Nat} (hvs : ∀ v∈vs,v<64) (hws : ∀ w∈ws,w<64)
    (h : vs.map base64Char=ws.map base64Char) : vs=ws := by
  induction vs generalizing ws with
  | nil => exact (List.map_eq_nil_iff.mp h.symm).symm
  | cons v vs ih =>
    cases ws with
    | nil => cases h
    | cons w ws =>
      obtain ⟨hv,hvs⟩ := List.forall_mem_cons.mp hvs
      obtain ⟨hw,hws⟩ := List.forall_mem_cons.mp hws
      obtain ⟨hchar,hrest⟩ := List.cons.inj h
      rw [base64Char_injective hv hw hchar,ih hvs hws hrest]

theorem base64_injective {x y : List UInt8} (h : base64 x=base64 y) : x=y := by
  have hchars := congrArg (List.filter (· ≠ '=')) h
  rw [filter_base64,filter_base64] at hchars
  have hsextets := map_base64Char_injective (sextets_lt x) (sextets_lt y) hchars
  rw [← octetsOfSextets_sextets x,← octetsOfSextets_sextets y,hsextets]

/-- The line breaks can be taken out again. -/
theorem filter_wrapLines (width left : Nat) {s : List Char} (h : '\n'∉s) :
    (wrapLines width left s).filter (· ≠ '\n')=s := by
  induction s generalizing left with
  | nil => cases left <;> rfl
  | cons c cs ih =>
    have hc : c ≠ '\n' := fun heq => h (heq ▸ List.mem_cons_self)
    have hcs : '\n'∉cs := fun hm => h (List.mem_cons_of_mem _ hm)
    cases left with
    | zero => simpa [wrapLines,hc] using ih (width-1) hcs
    | succ left => simpa [wrapLines,hc] using ih left hcs

theorem mem_wrapLines {width left : Nat} {s : List Char} {c : Char} (h : c∈wrapLines width left s) :
    c = '\n' ∨ c∈s := by
  induction s generalizing left with
  | nil => cases left <;> cases h
  | cons d cs ih =>
    cases left with
    | zero =>
      simp only [wrapLines,List.mem_cons] at h
      obtain rfl|rfl|hrest := h
      · exact Or.inl rfl
      · exact Or.inr List.mem_cons_self
      · exact (ih hrest).imp_right (List.mem_cons_of_mem d)
    | succ left =>
      simp only [wrapLines,List.mem_cons] at h
      obtain rfl|hrest := h
      · exact Or.inr List.mem_cons_self
      · exact (ih hrest).imp_right (List.mem_cons_of_mem d)

theorem wrapped_base64_injective {width left : Nat} {x y : List UInt8}
    (h : wrapLines width left (base64 x)=wrapLines width left (base64 y)) : x=y := by
  have hnewline : '\n'∉base64Alphabet := by
    rw [base64Alphabet_eq]
    decide
  have hplain : ∀ z : List UInt8,'\n'∉base64 z := not_mem_base64 hnewline (by decide)
  have hlines := congrArg (List.filter (· ≠ '\n')) h
  rw [filter_wrapLines width left (hplain x),filter_wrapLines width left (hplain y)] at hlines
  exact base64_injective hlines

end FastPki
