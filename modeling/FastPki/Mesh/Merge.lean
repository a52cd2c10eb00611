import FastPki.Certs.Revocation
import FastPki.X509.Name
import Mathlib.Data.List.Perm.Basic

namespace FastPki.Mesh
open Certs

/-- The published columns of a `certs` row that `certs_skip_dup` reads or writes. -/
structure Copy extends CertRow where
  id : Option String
  caInstanceId : Option String
  name : Option String
  caEnabled : Option Bool
  msEnrollPermission : Option Bool
  cert : Option X509.Octets
  deriving DecidableEq

def reason (t : Copy) : Int := t.revocationReason.getD 0

def date (t : Copy) : Int := t.revocationDate.getD 0

/-- `r` is revoked or on hold; apply it to `c`. -/
def revocationWins (c r : Copy) : Bool :=
  (c.status≠some (-1) ∧ ¬(reason r=6 ∧ reason c=8 ∧ date c≥date r)) ∨
    (c.status=some (-1) ∧ reason c=6 ∧ reason r≠6)

/-- `r` is a released hold; apply it to `c` if `c` is still on hold from before. -/
def releaseWins (c r : Copy) : Bool :=
  c.status=some (-1) ∧ reason c=6 ∧ date c≤date r

/-- A registration is adopted onto a plain record of the same bytes. -/
def adoptIdentity (cur new : Copy) : Copy :=
  if new.id≠none ∧ cur.id=none ∧ cur.cert=new.cert then
    { cur with id := new.id
               caInstanceId := new.caInstanceId
               name := new.name
               caEnabled := new.caEnabled
               msEnrollPermission := new.msEnrollPermission }
  else cur

def mergeRevocation (cur new : Copy) : Copy :=
  if new.status=some (-1) then
    if revocationWins cur new then
      { cur with status := some (-1)
                 revocationReason := new.revocationReason
                 revocationDate := new.revocationDate }
    else cur
  else if reason new=8 then
    if releaseWins cur new then
      { cur with status := new.status
                 revocationReason := some 8
                 revocationDate := new.revocationDate }
    else cur
  else cur

def mergeSuperseded (cur new : Copy) : Copy :=
  if new.status=some 3 ∧ (cur.status=some 0 ∨ cur.status=some 2) then
    { cur with status := some 3 }
  else cur

/-- The row left by the trigger when a replicated INSERT meets a row of the same serial. -/
def certsSkipDup (cur new : Copy) : Copy :=
  mergeSuperseded (mergeRevocation (adoptIdentity cur new) new) new

/-- A fold that starts from the first element. -/
def foldFirst {α : Type*} (f : α → α → α) : List α → Option α
  | [] => none
  | a::as => some (as.foldl f a)

/-- The copies of one serial arrive one after another at a node that has none. -/
def arrive (copies : List Copy) : Option Copy := foldFirst certsSkipDup copies

inductive Class where
  | revokedForGood | onHold | notRevoked
  deriving DecidableEq

def classOf (t : Copy) : Class :=
  if t.status=some (-1) then if reason t=6 then .onHold else .revokedForGood else .notRevoked

/-- What the trigger sees of a row: a plain one is neither revoked nor a recorded release. -/
inductive Mark where
  | final
  | held (at_ : Int)
  | released (at_ : Int)
  | plain
  deriving DecidableEq

def mark (t : Copy) : Mark :=
  if t.status=some (-1) then if reason t=6 then .held (date t) else .final
  else if reason t=8 then .released (date t) else .plain

def mergeMark : Mark → Mark → Mark
  | .final,_ => .final
  | _,.final => .final
  | .held d,.released e => if d≤e then .released e else .held d
  | .held d,_ => .held d
  | .released e,.held d => if e<d then .held d else .released e
  | .released e,_ => .released e
  | .plain,.held d => .held d
  | .plain,_ => .plain

def Mark.toClass : Mark → Class
  | .final => .revokedForGood
  | .held _ => .onHold
  | .released _ => .notRevoked
  | .plain => .notRevoked

theorem classOf_eq (t : Copy) : classOf t=(mark t).toClass := by
  simp only [classOf,mark]
  split_ifs <;> rfl

theorem mark_adoptIdentity (cur new : Copy) : mark (adoptIdentity cur new)=mark cur := by
  simp only [adoptIdentity]
  split_ifs <;> rfl

theorem mark_mergeSuperseded (cur new : Copy) : mark (mergeSuperseded cur new)=mark cur := by
  simp only [mergeSuperseded]
  split_ifs with h
  · have hcur : cur.status≠some (-1) := by
      obtain h0|h2 := h.2
      · simp [h0]
      · simp [h2]
    simp only [mark]
    rw [if_neg (by simp),if_neg hcur]
    rfl
  · rfl

theorem mark_cases (t : Copy) :
    (t.status=some (-1) ∧ reason t≠6 ∧ mark t=.final) ∨
    (t.status=some (-1) ∧ reason t=6 ∧ mark t=.held (date t)) ∨
    (t.status≠some (-1) ∧ reason t=8 ∧ mark t=.released (date t)) ∨
    (t.status≠some (-1) ∧ reason t≠8 ∧ mark t=.plain) := by
  simp only [mark]
  split_ifs with hs h6 h8
  · exact Or.inr (Or.inl ⟨hs,h6,rfl⟩)
  · exact Or.inl ⟨hs,h6,rfl⟩
  · exact Or.inr (Or.inr (Or.inl ⟨hs,h8,rfl⟩))
  · exact Or.inr (Or.inr (Or.inr ⟨hs,h8,rfl⟩))

theorem mark_revoked (cur new : Copy) (hs : new.status=some (-1)) :
    mark { cur with status := some (-1)
                    revocationReason := new.revocationReason
                    revocationDate := new.revocationDate }=mark new := by
  simp only [mark,hs]
  rfl

theorem mark_released (cur new : Copy) (hs : new.status≠some (-1)) (h8 : reason new=8) :
    mark { cur with status := new.status
                    revocationReason := some 8
                    revocationDate := new.revocationDate }=mark new := by
  simp only [mark]
  rw [if_neg hs,if_neg hs,if_pos h8]
  rfl

theorem mark_mergeRevocation (cur new : Copy) :
    mark (mergeRevocation cur new)=mergeMark (mark cur) (mark new) := by
  simp only [mergeRevocation]
  obtain ⟨hn,hr,hm⟩|⟨hn,hr,hm⟩|⟨hn,hr,hm⟩|⟨hn,hr,hm⟩ := mark_cases new
  -- a final revocation or a hold arrives
  · rw [if_pos hn,apply_ite mark,mark_revoked cur new hn,hm]
    obtain ⟨hc,hcr,hcm⟩|⟨hc,hcr,hcm⟩|⟨hc,hcr,hcm⟩|⟨hc,hcr,hcm⟩ := mark_cases cur
    all_goals
      rw [hcm]
      simp [revocationWins,mergeMark,hc,hcr,hr]
  · rw [if_pos hn,apply_ite mark,mark_revoked cur new hn,hm]
    obtain ⟨hc,hcr,hcm⟩|⟨hc,hcr,hcm⟩|⟨hc,hcr,hcm⟩|⟨hc,hcr,hcm⟩ := mark_cases cur
    all_goals
      rw [hcm]
      simp [revocationWins,mergeMark,hc,hcr,hr]
  -- a release arrives
  · rw [if_neg hn,if_pos hr,apply_ite mark,mark_released cur new hn hr,hm]
    obtain ⟨hc,hcr,hcm⟩|⟨hc,hcr,hcm⟩|⟨hc,hcr,hcm⟩|⟨hc,hcr,hcm⟩ := mark_cases cur
    all_goals
      rw [hcm]
      simp [releaseWins,mergeMark,hc,hcr]
  · rw [if_neg hn,if_neg hr,hm]
    cases mark cur <;> rfl

/-- The trigger acts on the marks alone. -/
theorem mark_certsSkipDup (cur new : Copy) :
    mark (certsSkipDup cur new)=mergeMark (mark cur) (mark new) := by
  rw [certsSkipDup,mark_mergeSuperseded,mark_mergeRevocation,mark_adoptIdentity]

theorem foldFirst_map {α β : Type*} {f : α → α → α} {h : β → β → β} {g : α → β}
    (hom : ∀ a b,g (f a b)=h (g a) (g b)) (l : List α) :
    (foldFirst f l).map g=foldFirst h (l.map g) := by
  cases l with
  | nil => rfl
  | cons a as =>
    simp only [foldFirst,List.map_cons,Option.map_some,Option.some.injEq]
    induction as generalizing a with
    | nil => rfl
    | cons b bs ih => rw [List.foldl_cons,List.map_cons,List.foldl_cons,ih,hom]

theorem foldl_stays {α : Type*} {f : α → α → α} {m : α} {ms : List α}
    (h : ∀ x∈ms,f m x=m) : ms.foldl f m=m := by
  induction ms with
  | nil => rfl
  | cons x xs ih =>
    rw [List.foldl_cons,h x (List.mem_cons_self ..)]
    exact ih (fun y hy => h y (List.mem_cons_of_mem x hy))

theorem mergeMark_selects (m x : Mark) : mergeMark m x=m ∨ mergeMark m x=x := by
  cases m <;> cases x <;> simp [mergeMark]
  all_goals omega

/-- What one merge never loses, among marks of `S`, the whole fold never loses. -/
theorem foldl_keeps {S K : Mark → Prop}
    (hkeep : ∀ m x,S m → S x → K m ∨ K x → K (mergeMark m x)) {m : Mark} {ms : List Mark}
    (hS : ∀ y∈m::ms,S y) (hK : ∃ y∈m::ms,K y) : K (ms.foldl mergeMark m) := by
  induction ms generalizing m with
  | nil => simpa using hK
  | cons x xs ih =>
    have hm : S m := hS m (by simp)
    have hx : S x := hS x (by simp)
    rw [List.foldl_cons]
    apply ih
    · intro y hy
      obtain rfl|hy := List.mem_cons.mp hy
      · obtain h|h := mergeMark_selects m x
        · rwa [h]
        · rwa [h]
      · exact hS y (by simp [hy])
    · obtain ⟨y,hy,hKy⟩ := hK
      obtain rfl|hy := List.mem_cons.mp hy
      · exact ⟨_,List.mem_cons_self ..,hkeep y x hm hx (Or.inl hKy)⟩
      obtain rfl|hy := List.mem_cons.mp hy
      · exact ⟨_,List.mem_cons_self ..,hkeep m y hm hx (Or.inr hKy)⟩
      · exact ⟨y,List.mem_cons_of_mem _ hy,hKy⟩

def Mark.IsHeld (m : Mark) : Prop := ∃ d,m=.held d

instance (m : Mark) : Decidable m.IsHeld :=
  match m with
  | .held d => isTrue ⟨d,rfl⟩
  | .final => isFalse (by simp [Mark.IsHeld])
  | .released _ => isFalse (by simp [Mark.IsHeld])
  | .plain => isFalse (by simp [Mark.IsHeld])

/-- The class does not depend on the order: a copy is revoked for good, or every hold is later
than every release, or no copy is plain and every release is at least as late as every hold. -/
def OrderFree (ms : List Mark) : Prop :=
  .final∈ms ∨ (∀ d e,.held d∈ms → .released e∈ms → e<d) ∨
    (.plain∉ms ∧ ∀ d e,.held d∈ms → .released e∈ms → d≤e)

theorem fold_class_final {m : Mark} {ms : List Mark} (h : .final∈m::ms) :
    (ms.foldl mergeMark m).toClass=.revokedForGood := by
  have hfin : ms.foldl mergeMark m=.final := by
    apply foldl_keeps (S := fun _ => True) (K := fun y => y=.final)
    · intro m x _ _ hor
      obtain rfl|rfl := hor
      · rfl
      · cases m <;> rfl
    · simp
    · exact ⟨_,h,rfl⟩
  rw [hfin]
  rfl

theorem fold_class_onHold {m : Mark} {ms : List Mark} (hf : .final∉m::ms)
    (hlate : ∀ d e,.held d∈m::ms → .released e∈m::ms → e<d) {d : Int} (hd : .held d∈m::ms) :
    (ms.foldl mergeMark m).toClass=.onHold := by
  have hheld : (ms.foldl mergeMark m).IsHeld := by
    apply foldl_keeps (S := fun y => y∈m::ms) (K := Mark.IsHeld)
    · intro y x hy hx hor
      obtain ⟨d,rfl⟩|⟨d,rfl⟩ := hor
      · cases x with
        | final => exact absurd hx hf
        | held d' => exact ⟨d,rfl⟩
        | released e => exact ⟨d,if_neg (Int.not_le.mpr (hlate d e hy hx))⟩
        | plain => exact ⟨d,rfl⟩
      · cases y with
        | final => exact absurd hy hf
        | held d' => exact ⟨d',rfl⟩
        | released e => exact ⟨d,if_pos (hlate d e hx hy)⟩
        | plain => exact ⟨d,rfl⟩
    · exact fun y hy => hy
    · exact ⟨_,hd,d,rfl⟩
  obtain ⟨d',hd'⟩ := hheld
  rw [hd']
  rfl

theorem fold_class_released {m : Mark} {ms : List Mark} (hf : .final∉m::ms) (hp : .plain∉m::ms)
    (hlate : ∀ d e,.held d∈m::ms → .released e∈m::ms → d≤e) {e : Int}
    (he : .released e∈m::ms) : (ms.foldl mergeMark m).toClass=.notRevoked := by
  have hrel : ∃ e,ms.foldl mergeMark m=.released e := by
    apply foldl_keeps (S := fun y => y∈m::ms) (K := fun y => ∃ e,y=.released e)
    · intro y x hy hx hor
      obtain ⟨e,rfl⟩|⟨e,rfl⟩ := hor
      · cases x with
        | final => exact absurd hx hf
        | held d => exact ⟨e,if_neg (Int.not_lt.mpr (hlate d e hx hy))⟩
        | released e' => exact ⟨e,rfl⟩
        | plain => exact absurd hx hp
      · cases y with
        | final => exact absurd hy hf
        | held d => exact ⟨e,if_pos (hlate d e hy hx)⟩
        | released e' => exact ⟨e',rfl⟩
        | plain => exact absurd hy hp
    · exact fun y hy => hy
    · exact ⟨_,he,e,rfl⟩
  obtain ⟨e',he'⟩ := hrel
  rw [he']
  rfl

theorem fold_class_notHeld {m : Mark} {ms : List Mark} (hf : .final∉m::ms)
    (hd : ∀ d,.held d∉m::ms) : (ms.foldl mergeMark m).toClass=.notRevoked := by
  apply foldl_keeps (S := fun y => y.toClass=.notRevoked) (K := fun y => y.toClass=.notRevoked)
  · intro y x hy hx _
    obtain h|h := mergeMark_selects y x
    · rwa [h]
    · rwa [h]
  · intro y hy
    cases y with
    | final => exact absurd hy hf
    | held d => exact absurd hy (hd d)
    | released e => rfl
    | plain => rfl
  · refine ⟨m,by simp,?_⟩
    cases m with
    | final => exact absurd (List.mem_cons_self ..) hf
    | held d => exact absurd (List.mem_cons_self ..) (hd d)
    | released e => rfl
    | plain => rfl

theorem OrderFree.class_const {ms : List Mark} (h : OrderFree ms) :
    ∃ c,∀ l,l.Perm ms → (foldFirst mergeMark l).map Mark.toClass=c := by
  -- each fold lemma is about the marks that occur, and so holds of every order of them
  have reorder {c : Class} (hc : ∀ m ls,(∀ y,y∈m::ls ↔ y∈ms) → (ls.foldl mergeMark m).toClass=c) :
      ∃ c,∀ l,l.Perm ms → (foldFirst mergeMark l).map Mark.toClass=c := by
    refine ⟨if ms=[] then none else some c,fun l hl => ?_⟩
    cases l with
    | nil => rw [if_pos hl.symm.eq_nil]; rfl
    | cons m ls =>
      have hne : ms≠[] := fun h => List.cons_ne_nil m ls (h ▸ hl).eq_nil
      rw [if_neg hne,← hc m ls (fun y => hl.mem_iff)]
      rfl
  by_cases hf : .final∈ms
  · exact reorder fun m ls hmem => fold_class_final ((hmem _).mpr hf)
  by_cases hheld : ∃ d,.held d∈ms
  swap
  · refine reorder fun m ls hmem => fold_class_notHeld (by rwa [hmem]) fun d hd => ?_
    exact hheld ⟨d,(hmem _).mp hd⟩
  obtain ⟨d,hd⟩ := hheld
  have late (hl : ∀ d e,.held d∈ms → .released e∈ms → e<d) :
      ∃ c,∀ l,l.Perm ms → (foldFirst mergeMark l).map Mark.toClass=c := by
    refine reorder fun m ls hmem => fold_class_onHold (by rwa [hmem]) ?_ ((hmem _).mpr hd)
    intro d e hd he
    exact hl d e ((hmem _).mp hd) ((hmem _).mp he)
  obtain hfin|hl|⟨hp,hl⟩ := h
  · exact absurd hfin hf
  · exact late hl
  · by_cases hrel : ∃ e,.released e∈ms
    · obtain ⟨e,he⟩ := hrel
      refine reorder fun m ls hmem =>
        fold_class_released (by rwa [hmem]) (by rwa [hmem]) ?_ ((hmem _).mpr he)
      intro d e hd he
      exact hl d e ((hmem _).mp hd) ((hmem _).mp he)
    · exact late fun d e _ he => absurd ⟨e,he⟩ hrel

/-- Two marks can be made to lead two blocks that split the rest. -/
theorem perm_two_blocks {ms : List Mark} {a b : Mark} (ha : a∈ms) (hb : b∈ms) (hab : b≠a)
    (p : Mark → Bool) : ∃ xs ys,(a::(xs++b::ys)).Perm ms ∧ (∀ x∈xs,p x=true) ∧
      ∀ y∈ys,p y=false := by
  let rest := (ms.erase a).erase b
  refine ⟨rest.filter p,rest.filter (!p ·),?_,?_,?_⟩
  · have hb' : b∈ms.erase a := (List.mem_erase_of_ne hab).mpr hb
    have hmid : (rest.filter p++b::rest.filter (!p ·)).Perm (b::rest) :=
      List.perm_middle.trans ((List.filter_append_perm p rest).cons b)
    exact ((hmid.trans (List.perm_cons_erase hb').symm).cons a).trans
      (List.perm_cons_erase ha).symm
  · intro x hx
    exact (List.mem_filter.mp hx).2
  · intro y hy
    simpa using (List.mem_filter.mp hy).2

/-- All holds first, then the releases: the certificate ends released. -/
theorem exists_order_notRevoked {ms : List Mark} (hf : .final∉ms) {d e : Int}
    (hd : .held d∈ms) (he : .released e∈ms) (hde : d≤e) :
    ∃ l,l.Perm ms ∧ ∃ r,foldFirst mergeMark l=some r ∧ r.toClass=.notRevoked := by
  obtain ⟨xs,ys,hperm,hxs,hys⟩ :=
    perm_two_blocks hd he (by simp) (fun m => decide m.IsHeld)
  refine ⟨_,hperm,_,rfl,?_⟩
  have hholds : xs.foldl mergeMark (.held d)=.held d := by
    refine foldl_stays fun x hx => ?_
    obtain ⟨d',rfl⟩ := of_decide_eq_true (hxs x hx)
    rfl
  have hrest : ys.foldl mergeMark (.released e)=.released e := by
    refine foldl_stays fun y hy => ?_
    have hno := of_decide_eq_false (hys y hy)
    cases y with
    | final => exact absurd (hperm.mem_iff.mp (by simp [hy])) hf
    | held d' => exact absurd ⟨d',rfl⟩ hno
    | released e' => rfl
    | plain => rfl
  rw [List.foldl_append,hholds,List.foldl_cons]
  have hmerge : mergeMark (.held d) (.released e)=.released e := if_pos hde
  rw [hmerge,hrest]
  rfl

/-- A copy that the hold overrides, the other releases, then the holds: it ends on hold. -/
theorem exists_order_onHold {ms : List Mark} (hf : .final∉ms) {a : Mark} {d : Int}
    (ha : a∈ms) (hd : .held d∈ms) (hkeep : ¬a.IsHeld) (hover : mergeMark a (.held d)=.held d) :
    ∃ l,l.Perm ms ∧ ∃ r,foldFirst mergeMark l=some r ∧ r.toClass=.onHold := by
  have hne : Mark.held d≠a := fun h => hkeep ⟨d,h.symm⟩
  obtain ⟨xs,ys,hperm,hxs,hys⟩ :=
    perm_two_blocks ha hd hne (fun m => !decide m.IsHeld)
  refine ⟨_,hperm,_,rfl,?_⟩
  have hrest : xs.foldl mergeMark a=a := by
    refine foldl_stays fun x hx => ?_
    have hno : ¬x.IsHeld := by simpa using hxs x hx
    have hxf : x≠.final := by
      intro h
      subst h
      exact hf (hperm.mem_iff.mp (by simp [hx]))
    cases a with
    | final => exact absurd ha hf
    | held d' => exact absurd ⟨d',rfl⟩ hkeep
    | released e => cases x <;> simp_all [mergeMark,Mark.IsHeld]
    | plain => cases x <;> simp_all [mergeMark,Mark.IsHeld]
  have hholds : ys.foldl mergeMark (.held d)=.held d := by
    refine foldl_stays fun y hy => ?_
    have hyes : y.IsHeld := by simpa using hys y hy
    obtain ⟨d',rfl⟩ := hyes
    rfl
  rw [List.foldl_append,hrest,List.foldl_cons,hover,hholds]
  rfl

theorem orderFree_of_class_const {ms : List Mark}
    (h : ∀ l l',l.Perm ms → l'.Perm ms →
      (foldFirst mergeMark l).map Mark.toClass=(foldFirst mergeMark l').map Mark.toClass) :
    OrderFree ms := by
  by_contra hno
  simp only [OrderFree,not_or,not_and_or,not_forall,Int.not_lt,Int.not_le,
    not_not] at hno
  obtain ⟨hf,⟨d,e,hd,he,hde⟩,hpl⟩ := hno
  obtain ⟨l,hl,r,hr,hrc⟩ := exists_order_notRevoked hf hd he hde
  have honhold : ∃ l,l.Perm ms ∧ ∃ r,foldFirst mergeMark l=some r ∧ r.toClass=.onHold := by
    obtain hp|⟨d',e',hd',he',hlt⟩ := hpl
    · exact exists_order_onHold hf hp hd (by simp [Mark.IsHeld]) rfl
    · exact exists_order_onHold hf he' hd' (by simp [Mark.IsHeld]) (if_pos hlt)
  obtain ⟨l',hl',r',hr',hrc'⟩ := honhold
  have heq := h l l' hl hl'
  simp [hr,hr',hrc,hrc'] at heq

theorem exists_perm_of_perm_map {copies : List Copy} {l : List Mark}
    (hl : l.Perm (copies.map mark)) : ∃ k : List Copy,l=k.map mark ∧ k.Perm copies :=
  (congrFun (congrFun (List.eq_map_comp_perm mark) l) copies).mpr hl

theorem arrive_class (copies : List Copy) :
    (arrive copies).map classOf=(foldFirst mergeMark (copies.map mark)).map Mark.toClass := by
  rw [arrive,← foldFirst_map mark_certsSkipDup copies,Option.map_map]
  congr 1
  exact funext classOf_eq

/-- The class a node ends with does not depend on the order in which the copies of a serial
arrive, exactly when no two of them can pull it apart. -/
theorem merge_order_independent_iff (copies : List Copy) :
    (∀ l l',l.Perm copies → l'.Perm copies →
      (arrive l).map classOf=(arrive l').map classOf) ↔ OrderFree (copies.map mark) := by
  constructor
  · intro h
    apply orderFree_of_class_const
    intro l l' hl hl'
    obtain ⟨k,rfl,hk⟩ := exists_perm_of_perm_map hl
    obtain ⟨k',rfl,hk'⟩ := exists_perm_of_perm_map hl'
    rw [← arrive_class,← arrive_class]
    exact h k k' hk hk'
  · intro h l l' hl hl'
    obtain ⟨c,hc⟩ := h.class_const
    rw [arrive_class,arrive_class,hc _ (hl.map mark),hc _ (hl'.map mark)]

def validCopy : Copy := ⟨⟨some 0,none,none,some 5000⟩,none,some "ca-a",none,none,none,some [48]⟩

def heldCopy : Copy :=
  { validCopy with status := some (-1), revocationReason := some 6, revocationDate := some 10 }

def releasedCopy : Copy :=
  { validCopy with revocationReason := some 8, revocationDate := some 20 }

/-- A copy that missed a hold and its release: whether the certificate is on hold in the end
depends on which of the three arrives first. -/
theorem merge_class_depends_on_order :
    ¬∀ copies l l' : List Copy,l.Perm copies → l'.Perm copies →
      (arrive l).map classOf=(arrive l').map classOf := by
  intro h
  have heq := h [validCopy,heldCopy,releasedCopy] [validCopy,releasedCopy,heldCopy]
    [heldCopy,releasedCopy,validCopy] (by decide) (by decide)
  exact absurd heq (by decide)

end FastPki.Mesh
