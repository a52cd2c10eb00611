import FastPki.Net.Address
import Mathlib.Data.List.DropRight
import Mathlib.Data.List.GetD
import Mathlib.Order.PiLex

namespace FastPki

section Sign

variable {α κ : Type}

/-- The sign of a comparison is that of a total preorder. -/
def SignsPreorder (cmp : α → α → Int) : Prop :=
  (∀ a,cmp a a=0) ∧ (∀ a b,(cmp a b).sign=-(cmp b a).sign) ∧
    ∀ a b c,cmp a b ≤ 0 → cmp b c ≤ 0 → cmp a c ≤ 0

/-- A comparison by a key in a linear order is one. -/
theorem SignsPreorder.of_key [LinearOrder κ] {cmp : α → α → Int} (key : α → κ)
    (hlt : ∀ a b,cmp a b<0 ↔ key a<key b) (hgt : ∀ a b,0<cmp a b ↔ key b<key a) :
    SignsPreorder cmp := by
  have hle : ∀ a b,cmp a b ≤ 0 ↔ key a ≤ key b := by
    intro a b
    rw [← not_lt,hgt,not_lt]
  refine ⟨fun a => ?_,fun a b => ?_,fun a b c hab hbc => ?_⟩
  · have hnlt := (hlt a a).not.mpr (lt_irrefl _)
    have hngt := (hgt a a).not.mpr (lt_irrefl _)
    omega
  · rcases lt_trichotomy (cmp a b) 0 with h|h|h
    · have hba : 0<cmp b a := (hgt b a).mpr ((hlt a b).mp h)
      rw [Int.sign_eq_neg_one_of_neg h,Int.sign_eq_one_of_pos hba]
    · have hkey : key a=key b :=
        le_antisymm ((hle a b).mp h.le) (not_lt.mp ((hlt a b).not.mp (by omega)))
      have hnlt := (hlt b a).not.mpr hkey.not_gt
      have hngt := (hgt b a).not.mpr hkey.not_lt
      have hba : cmp b a=0 := by omega
      rw [h,hba]
      rfl
    · have hba : cmp b a<0 := (hlt b a).mpr ((hgt a b).mp h)
      rw [Int.sign_eq_one_of_pos h,Int.sign_eq_neg_one_of_neg hba]
      rfl
  · exact (hle a c).mpr (((hle a b).mp hab).trans ((hle b c).mp hbc))

end Sign

end FastPki

namespace FastPki.Attest
open X509

section Code

def maxPart : Nat := 1000000

/-- One more digit of a component, which stays at its limit. -/
def addDigit (cur : Nat) (ch : UInt8) : Nat := min (cur*10+(ch.toNat-0x30)) maxPart

/-- The loop over the characters. A foreign one ends it, and the component in progress is not
kept. -/
def partsLoop : Octets → Nat → Bool → List Nat → List Nat
  | [],_,_,v => v
  | ch::s,cur,any,v =>
    if Ascii.isDigit ch then partsLoop s (addDigit cur ch) true v
    else if ch = 0x2e then partsLoop s 0 false (v++[if any then cur else 0])
    else v

def parts (s : Octets) : List Nat := (partsLoop (s++[0x2e]) 0 false []).rdropWhile (· = 0)

/-- The loop over the components, where a missing one is zero. -/
def firstDifference (x y : List Nat) : Nat → Nat → Int
  | 0,_ => 0
  | n+1,i =>
    let p := x.getD i 0
    let q := y.getD i 0
    if p ≠ q then if p < q then -1 else 1 else firstDifference x y n (i+1)

def compareVersions (a b : Octets) : Int :=
  let x := parts a
  let y := parts b
  firstDifference x y (max x.length y.length) 0

end Code

section Order

/-- The components of a version, in the lexicographic order. -/
def versionKey (s : Octets) : Lex (Nat → Nat) := toLex fun i => (parts s).getD i 0

/-- From the place on the loop finds the first difference, if there is one. -/
theorem firstDifference_spec (x y : List Nat) (n i : Nat)
    (hend : ∀ j,i+n ≤ j → x.getD j 0=y.getD j 0) :
    (firstDifference x y n i=0 ∧ ∀ j,i ≤ j → x.getD j 0=y.getD j 0) ∨
    ∃ k,(∀ j,i ≤ j → j<k → x.getD j 0=y.getD j 0) ∧
      ((firstDifference x y n i=-1 ∧ x.getD k 0<y.getD k 0) ∨
        (firstDifference x y n i=1 ∧ y.getD k 0<x.getD k 0)) := by
  induction n generalizing i with
  | zero => exact Or.inl ⟨rfl,fun j hj => hend j (by omega)⟩
  | succ n ih =>
    by_cases hne : x.getD i 0=y.getD i 0
    · have hstep : firstDifference x y (n+1) i=firstDifference x y n (i+1) := by
        rw [firstDifference,if_neg (not_not.mpr hne)]
      rw [hstep]
      have hsame : ∀ j,i ≤ j → (i+1 ≤ j → x.getD j 0=y.getD j 0) → x.getD j 0=y.getD j 0 := by
        intro j hj hnext
        rcases Nat.eq_or_lt_of_le hj with rfl|hlt
        · exact hne
        · exact hnext hlt
      rcases ih (i+1) (fun j hj => hend j (by omega)) with ⟨hzero,hall⟩|⟨k,hbefore,hk⟩
      · exact Or.inl ⟨hzero,fun j hj => hsame j hj (hall j)⟩
      · exact Or.inr ⟨k,fun j hj hjk => hsame j hj fun hnext => hbefore j hnext hjk,hk⟩
    · refine Or.inr ⟨i,fun j hj hji => absurd hj (by omega),?_⟩
      rw [firstDifference,if_pos hne]
      rcases Nat.lt_or_gt_of_ne hne with hlt|hgt
      · exact Or.inl ⟨if_pos hlt,hlt⟩
      · exact Or.inr ⟨if_neg (by omega),hgt⟩

theorem getD_past (x : List Nat) {j : Nat} (h : x.length ≤ j) : x.getD j 0=0 :=
  List.getD_eq_default x 0 h

/-- A comparison says where the first difference lies in the order of the keys. -/
theorem compareVersions_spec (a b : Octets) :
    (compareVersions a b=0 ∧ versionKey a=versionKey b) ∨
    (compareVersions a b=-1 ∧ versionKey a<versionKey b) ∨
    (compareVersions a b=1 ∧ versionKey b<versionKey a) := by
  have hend : ∀ j,0+max (parts a).length (parts b).length ≤ j →
      (parts a).getD j 0=(parts b).getD j 0 := by
    intro j hj
    rw [getD_past _ (by omega),getD_past _ (by omega)]
  rcases firstDifference_spec (parts a) (parts b) _ 0 hend with ⟨hzero,hall⟩|⟨k,hbefore,hk⟩
  · exact Or.inl ⟨hzero,funext fun j => hall j (Nat.zero_le j)⟩
  · rcases hk with ⟨hcmp,hlt⟩|⟨hcmp,hlt⟩
    · exact Or.inr (Or.inl ⟨hcmp,k,fun j hj => hbefore j (Nat.zero_le j) hj,hlt⟩)
    · exact Or.inr (Or.inr ⟨hcmp,k,fun j hj => (hbefore j (Nat.zero_le j) hj).symm,hlt⟩)

theorem compareVersions_neg_iff (a b : Octets) :
    compareVersions a b<0 ↔ versionKey a<versionKey b := by
  rcases compareVersions_spec a b with ⟨hcmp,hkey⟩|⟨hcmp,hkey⟩|⟨hcmp,hkey⟩
  · rw [hcmp,hkey]
    exact iff_of_false (lt_irrefl _) (lt_irrefl _)
  · rw [hcmp]
    exact iff_of_true (by omega) hkey
  · rw [hcmp]
    exact iff_of_false (by omega) hkey.not_gt

theorem compareVersions_pos_iff (a b : Octets) :
    0<compareVersions a b ↔ versionKey b<versionKey a := by
  rcases compareVersions_spec a b with ⟨hcmp,hkey⟩|⟨hcmp,hkey⟩|⟨hcmp,hkey⟩
  · rw [hcmp,hkey]
    exact iff_of_false (lt_irrefl _) (lt_irrefl _)
  · rw [hcmp]
    exact iff_of_false (by omega) hkey.not_gt
  · rw [hcmp]
    exact iff_of_true (by omega) hkey

theorem compareVersions_eq_zero_iff (a b : Octets) :
    compareVersions a b=0 ↔ ∀ i,(parts a).getD i 0=(parts b).getD i 0 := by
  rcases compareVersions_spec a b with ⟨hcmp,hkey⟩|⟨hcmp,hkey⟩|⟨hcmp,hkey⟩
  · exact iff_of_true hcmp (congrFun hkey)
  · refine iff_of_false (by omega) fun h => hkey.ne (funext h)
  · refine iff_of_false (by omega) fun h => hkey.ne (funext h).symm

theorem compareVersions_signsPreorder : SignsPreorder compareVersions :=
  SignsPreorder.of_key versionKey compareVersions_neg_iff compareVersions_pos_iff

end Order

section Suffix

/-- Decimal numbers between dots. -/
structure DottedNumbers where
  numbers : List Octets
  decimal : ∀ d∈numbers,d≠[] ∧ ∀ ch∈d,Ascii.isDigit ch=true

def DottedNumbers.text (v : DottedNumbers) : Octets := [0x2e].intercalate v.numbers

/-- What may follow a version: something that begins with neither a digit nor a dot. -/
structure ForeignSuffix where
  first : UInt8
  rest : Octets
  foreign : Ascii.isDigit first=false ∧ first≠0x2e

def ForeignSuffix.text (s : ForeignSuffix) : Octets := s.first::s.rest

/-- The component that the digits give. -/
def component (d : Octets) : Nat := d.foldl addDigit 0

/-- All digits of a component are read. -/
theorem partsLoop_digits {d : Octets} (hd : ∀ ch∈d,Ascii.isDigit ch=true) (t : Octets) (cur : Nat)
    (any : Bool) (v : List Nat) :
    partsLoop (d++t) cur any v=partsLoop t (d.foldl addDigit cur) (any || d ≠ []) v := by
  induction d generalizing cur any with
  | nil => simp
  | cons ch d ih =>
    rw [List.cons_append,partsLoop,if_pos (hd ch List.mem_cons_self),
      ih (fun c hc => hd c (List.mem_cons_of_mem _ hc)),List.foldl_cons]
    simp

theorem partsLoop_number {d : Octets} (hd : d≠[] ∧ ∀ ch∈d,Ascii.isDigit ch=true) (t : Octets)
    (v : List Nat) : partsLoop (d++0x2e::t) 0 false v=partsLoop t 0 false (v++[component d]) := by
  rw [partsLoop_digits hd.2,partsLoop,if_neg (by decide),if_pos rfl]
  simp [hd.1,component]

/-- A foreign character behind the digits drops them. -/
theorem partsLoop_foreign {d : Octets} (hd : ∀ ch∈d,Ascii.isDigit ch=true) (s : ForeignSuffix)
    (t : Octets) (v : List Nat) : partsLoop (d++(s.text++t)) 0 false v=v := by
  rw [partsLoop_digits hd,ForeignSuffix.text,List.cons_append,partsLoop,
    if_neg (by simp [s.foreign.1]),if_neg s.foreign.2]

theorem partsLoop_dotted {ds : List Octets} (hne : ds≠[])
    (hds : ∀ d∈ds,d≠[] ∧ ∀ ch∈d,Ascii.isDigit ch=true) (v : List Nat) :
    partsLoop ([0x2e].intercalate ds++[0x2e]) 0 false v=v++ds.map component := by
  induction ds generalizing v with
  | nil => exact absurd rfl hne
  | cons d ds ih =>
    have hd := hds d List.mem_cons_self
    cases ds with
    | nil =>
      rw [List.intercalate_singleton,partsLoop_number hd,partsLoop]
      rfl
    | cons e ds =>
      rw [List.intercalate_cons_cons,List.append_assoc,List.append_assoc]
      change partsLoop (d++0x2e::([0x2e].intercalate (e::ds)++[0x2e])) 0 false v=_
      rw [partsLoop_number hd,ih (by simp) fun c hc => hds c (List.mem_cons_of_mem _ hc)]
      simp

theorem partsLoop_dotted_foreign {ds : List Octets}
    (hds : ∀ d∈ds,d≠[] ∧ ∀ ch∈d,Ascii.isDigit ch=true) (s : ForeignSuffix) (t : Octets)
    (v : List Nat) : partsLoop ([0x2e].intercalate ds++(s.text++t)) 0 false v=
      v++ds.dropLast.map component := by
  induction ds generalizing v with
  | nil =>
    have h := partsLoop_foreign (d := []) (by simp) s t v
    simpa using h
  | cons d ds ih =>
    have hd := hds d List.mem_cons_self
    cases ds with
    | nil =>
      rw [List.intercalate_singleton,partsLoop_foreign hd.2]
      simp
    | cons e ds =>
      rw [List.intercalate_cons_cons,List.append_assoc,List.append_assoc]
      change partsLoop (d++0x2e::([0x2e].intercalate (e::ds)++(s.text++t))) 0 false v=_
      rw [partsLoop_number hd,ih fun c hc => hds c (List.mem_cons_of_mem _ hc)]
      simp

/-- Zeros at the end are the same as nothing there. -/
theorem getD_rdropWhile (l : List Nat) (i : Nat) :
    (l.rdropWhile (· = 0)).getD i 0=l.getD i 0 := by
  induction l using List.reverseRecOn with
  | nil => rfl
  | append_singleton l x ih =>
    rw [List.rdropWhile_concat]
    split_ifs with hx
    · rw [ih,of_decide_eq_true hx]
      rcases lt_or_ge i l.length with hlt|hge
      · rw [List.getD_append _ _ _ _ hlt]
      · rw [List.getD_append_right _ _ _ _ hge,getD_past l hge]
        cases i-l.length with
        | zero => rfl
        | succ n => rfl
    · rfl

theorem addDigit_eq_zero {cur : Nat} {ch : UInt8} : addDigit cur ch=0 ↔ cur=0 ∧ ch.toNat-0x30=0 := by
  rw [addDigit,maxPart]
  omega

/-- A component is zero where its number is. -/
theorem component_eq_zero_iff (d : Octets) : component d=0 ↔ Ascii.value d=0 := by
  have hfold : ∀ (d : Octets) (m n : Nat),(m=0 ↔ n=0) →
      (d.foldl addDigit m=0 ↔ d.foldl (fun n c => 10*n+(c.toNat-0x30)) n=0) := by
    intro d
    induction d with
    | nil => exact fun m n h => h
    | cons ch d ih =>
      intro m n h
      refine ih _ _ ?_
      rw [addDigit_eq_zero,h]
      change n=0 ∧ ch.toNat-0x30=0 ↔ 10*n+(ch.toNat-0x30)=0
      omega
  exact hfold d 0 0 Iff.rfl

/-- Without its last component a version is the same where that is zero. -/
theorem getD_dropLast_iff (l : List Nat) (x : Nat) :
    (∀ i,l.getD i 0=(l++[x]).getD i 0) ↔ x=0 := by
  constructor
  · intro h
    have hlast := h l.length
    rw [getD_past l le_rfl,List.getD_append_right _ _ _ _ le_rfl,Nat.sub_self] at hlast
    exact hlast.symm
  · rintro rfl i
    rw [← getD_rdropWhile (l++[0]),List.rdropWhile_concat_pos _ _ _ (by simp),getD_rdropWhile]

/-- The comparisons are a total preorder, and a suffix is passed over exactly where the number before
it is zero. -/
theorem version_order_suffix_iff (v : DottedNumbers) (s : ForeignSuffix) :
    SignsPreorder compareVersions ∧
    (compareVersions (v.text++s.text) v.text=0 ↔ ∀ d∈v.numbers.getLast?,Ascii.value d=0) := by
  refine ⟨compareVersions_signsPreorder,?_⟩
  have hwith : ∀ i,(parts (v.text++s.text)).getD i 0=
      (v.numbers.dropLast.map component).getD i 0 := by
    intro i
    rw [parts,getD_rdropWhile,List.append_assoc,DottedNumbers.text,
      partsLoop_dotted_foreign v.decimal]
    rfl
  rw [compareVersions_eq_zero_iff]
  simp only [hwith]
  rcases List.eq_nil_or_concat v.numbers with hnil|⟨ds,d,hcons⟩
  · refine iff_of_true (fun i => ?_) (by simp [hnil])
    rw [parts,getD_rdropWhile,DottedNumbers.text,hnil]
    cases i with
    | zero => rfl
    | succ i => rfl
  · have hwithout : ∀ i,(parts v.text).getD i 0=(ds.map component++[component d]).getD i 0 := by
      intro i
      rw [parts,getD_rdropWhile,DottedNumbers.text,partsLoop_dotted (by simp [hcons]) v.decimal,
        hcons]
      simp
    simp only [hwithout,hcons]
    rw [List.concat_eq_append,List.dropLast_concat,getD_dropLast_iff,component_eq_zero_iff]
    simp

end Suffix

def seventeenTwo : DottedNumbers := ⟨[octets "17",octets "2"],by decide +kernel⟩

def buildNumber : ForeignSuffix := ⟨0x20,octets "(21C62)",by decide⟩

/-- `17.2 (21C62)` is below `17.2`. -/
theorem build_number_drops_component :
    seventeenTwo.text++buildNumber.text=octets "17.2 (21C62)" ∧
      compareVersions (octets "17.2 (21C62)") (octets "17.2")=-1 ∧
      ¬∀ (v : DottedNumbers) (s : ForeignSuffix),compareVersions (v.text++s.text) v.text=0 := by
  have htext : seventeenTwo.text++buildNumber.text=octets "17.2 (21C62)" := by decide
  have hlist : seventeenTwo.text=octets "17.2" := by decide
  have hbelow : compareVersions (octets "17.2 (21C62)") (octets "17.2")=-1 := by decide
  refine ⟨htext,hbelow,fun h => ?_⟩
  have hzero := h seventeenTwo buildNumber
  rw [htext,hlist,hbelow] at hzero
  exact absurd hzero (by decide)

end FastPki.Attest
