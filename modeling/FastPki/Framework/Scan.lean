import FastPki.Framework.Except
import Mathlib.Data.List.Infix

namespace FastPki

/-- How a scan ends early: it refuses, or it reads a place that is not in its memory. -/
inductive Halt (ε : Type) where
  | thrown (e : ε)
  | outside (i : Nat)
  deriving DecidableEq

/-- A block of memory, the place of the next symbol in it and the end of what may be read. -/
@[ext] structure Cursor (α : Type) where
  mem : List α
  pos : Nat
  stop : Nat
  deriving DecidableEq

namespace Cursor

variable {α ε β γ : Type}

def whole (mem : List α) (pos : Nat) : Cursor α := ⟨mem,pos,mem.length⟩

def left (c : Cursor α) : Nat := c.stop-c.pos

def advance (c : Cursor α) (n : Nat) : Cursor α := { c with pos := c.pos+n }

def Fits (c : Cursor α) : Prop := c.stop ≤ c.mem.length

/-- `*p`, whatever `p` is. -/
def deref (mem : List α) (i : Nat) : Except (Halt ε) α :=
  match mem[i]? with
  | some a => .ok a
  | none => .error (.outside i)

/-- A copy of `n` symbols from `i` on. -/
def copy (mem : List α) (i n : Nat) : Except (Halt ε) (List α) :=
  if n = 0 ∨ i+n ≤ mem.length then .ok ((mem.drop i).take n) else .error (.outside mem.length)

/-- What is left to read. -/
def rest (c : Cursor α) : List α := (c.mem.take c.stop).drop c.pos

theorem whole_fits (mem : List α) (pos : Nat) : (whole mem pos).Fits := le_rfl

@[simp] theorem whole_rest (mem : List α) (pos : Nat) : (whole mem pos).rest=mem.drop pos := by
  simp [whole,rest]

@[simp] theorem advance_mem (c : Cursor α) (n : Nat) : (c.advance n).mem=c.mem := rfl

@[simp] theorem advance_stop (c : Cursor α) (n : Nat) : (c.advance n).stop=c.stop := rfl

@[simp] theorem advance_pos (c : Cursor α) (n : Nat) : (c.advance n).pos=c.pos+n := rfl

@[simp] theorem advance_zero (c : Cursor α) : c.advance 0=c := rfl

theorem advance_advance (c : Cursor α) (m n : Nat) :
    (c.advance m).advance n=c.advance (m+n) := by
  simp [advance,Nat.add_assoc]

theorem Fits.advance {c : Cursor α} (h : c.Fits) (n : Nat) : (c.advance n).Fits := h

theorem rest_advance (c : Cursor α) (n : Nat) : (c.advance n).rest=c.rest.drop n := by
  rw [rest,rest,List.drop_drop]
  rfl

theorem Fits.length_rest {c : Cursor α} (h : c.Fits) : c.rest.length=c.left := by
  rw [rest,List.length_drop,List.length_take,Nat.min_eq_left h]
  rfl

/-- One symbol may be read where something is left. -/
theorem Fits.rest_cons {c : Cursor α} (h : c.Fits) (hlt : c.pos<c.stop) :
    ∃ a,c.mem[c.pos]?=some a ∧ c.rest=a::(c.advance 1).rest := by
  have hlen : c.pos<c.mem.length := hlt.trans_le h
  refine ⟨c.mem[c.pos],List.getElem?_eq_getElem hlen,?_⟩
  rw [rest_advance,rest,← List.cons_getElem_drop_succ (h := by
    rw [List.length_take,Nat.min_eq_left h]
    exact hlt)]
  simp

theorem rest_eq_nil {c : Cursor α} (h : c.stop ≤ c.pos) : c.rest=[] := by
  apply List.drop_eq_nil_of_le
  rw [List.length_take]
  omega

/-- What is left can be copied. -/
theorem Fits.copy {c : Cursor α} (h : c.Fits) {n : Nat} (hn : n ≤ c.left) :
    Cursor.copy c.mem c.pos n=(.ok (c.rest.take n) : Except (Halt ε) (List α)) := by
  rw [left] at hn
  rw [Fits] at h
  by_cases hzero : n=0
  · rw [Cursor.copy,if_pos (Or.inl hzero),hzero,List.take_zero,List.take_zero]
  · rw [Cursor.copy,if_pos (by omega),rest,List.take_drop,List.take_drop,List.take_take,
      Nat.min_eq_left (by omega)]

/-- What is read first leaves the rest to be read by what comes next. -/
theorem append_prefix_iff {c : Cursor α} {x y : List α} :
    x++y<+:c.rest ↔ x<+:c.rest ∧ y<+:(c.advance x.length).rest := by
  rw [rest_advance]
  constructor
  · intro h
    obtain ⟨t,ht⟩ := h
    rw [← ht,List.append_assoc]
    exact ⟨List.prefix_append ..,by simp⟩
  · rintro ⟨⟨t,ht⟩,hy⟩
    rw [← ht,List.drop_left] at hy
    obtain ⟨u,rfl⟩ := hy
    exact ⟨u,by rw [← ht,List.append_assoc]⟩

end Cursor

/-- A scan succeeds, with this result, exactly where the symbols from the place on begin with a word
of its grammar, and it goes on behind that word. -/
def Parses {α ε β : Type} (f : Cursor α → Except (Halt ε) (β × Cursor α)) (P : β → List α → Prop) :
    Prop :=
  ∀ c : Cursor α,c.Fits → ∀ b c',f c=.ok (b,c') ↔
    ∃ x,P b x ∧ x<+:c.rest ∧ c'=c.advance x.length

/-- A scan stays in its memory: it never reads outside, and what it leaves has the same end. -/
def Inside {α ε β : Type} (f : Cursor α → Except (Halt ε) (β × Cursor α)) : Prop :=
  ∀ c : Cursor α,c.Fits → Refuses (fun e => ∃ t,e=Halt.thrown t) (f c) ∧
    ∀ b c',f c=.ok (b,c') → c'.mem=c.mem ∧ c'.stop=c.stop

section Rules

variable {α ε β γ : Type} {f : Cursor α → Except (Halt ε) (β × Cursor α)}
  {g : β → Cursor α → Except (Halt ε) (γ × Cursor α)} {P : β → List α → Prop}
  {Q : β → γ → List α → Prop}

theorem Parses.pure (b : β) : Parses (ε := ε) (fun c : Cursor α => .ok (b,c))
    fun b' x => b'=b ∧ x=[] := by
  intro c _ b' c'
  constructor
  · intro h
    obtain ⟨rfl,rfl⟩ := Prod.mk.inj (Except.ok.inj h)
    exact ⟨[],⟨rfl,rfl⟩,List.nil_prefix,rfl⟩
  · rintro ⟨x,⟨rfl,rfl⟩,_,rfl⟩
    rfl

theorem Parses.bind (hf : Parses f P) (hg : ∀ b,Parses (g b) (Q b)) :
    Parses (fun c => f c >>= fun (b,c) => g b c)
      fun d z => ∃ b x y,P b x ∧ Q b d y ∧ z=x++y := by
  intro c hc d c'
  rw [bind_eq_ok_iff]
  constructor
  · rintro ⟨⟨b,c1⟩,h1,h2⟩
    obtain ⟨x,hx,hpre,rfl⟩ := (hf c hc b c1).mp h1
    obtain ⟨y,hy,hpre',rfl⟩ := (hg b _ (hc.advance _) d c').mp h2
    refine ⟨x++y,⟨b,x,y,hx,hy,rfl⟩,Cursor.append_prefix_iff.mpr ⟨hpre,hpre'⟩,?_⟩
    rw [Cursor.advance_advance,List.length_append]
  · rintro ⟨z,⟨b,x,y,hx,hy,rfl⟩,hpre,rfl⟩
    obtain ⟨hpre,hpre'⟩ := Cursor.append_prefix_iff.mp hpre
    refine ⟨(b,c.advance x.length),(hf c hc _ _).mpr ⟨x,hx,hpre,rfl⟩,?_⟩
    refine (hg b _ (hc.advance _) d _).mpr ⟨y,hy,hpre',?_⟩
    rw [Cursor.advance_advance,List.length_append]

theorem Parses.congr {P' : β → List α → Prop} (hf : Parses f P) (h : ∀ b x,P b x ↔ P' b x) :
    Parses f P' := by
  intro c hc b c'
  rw [hf c hc b c']
  simp only [h]

theorem Parses.ite {p : Prop} [Decidable p] {f' : Cursor α → Except (Halt ε) (β × Cursor α)}
    {P' : β → List α → Prop} (hf : Parses f P) (hf' : Parses f' P') :
    Parses (fun c => if p then f c else f' c) fun b x => if p then P b x else P' b x := by
  by_cases hp : p
  · simpa only [if_pos hp] using hf
  · simpa only [if_neg hp] using hf'

theorem Parses.refused (e : ε) : Parses (fun _ : Cursor α =>
    (.error (.thrown e) : Except (Halt ε) (β × Cursor α))) fun _ _ => False := by
  intro c _ b c'
  constructor
  · intro h
    cases h
  · rintro ⟨x,hx,_⟩
    exact hx.elim

/-- A test that no word of the grammar fails changes nothing. -/
theorem Parses.guarded {p : Cursor α → Prop} [∀ c,Decidable (p c)] {e : ε} (hf : Parses f P)
    (hp : ∀ c : Cursor α,c.Fits → ∀ b x,P b x → x<+:c.rest → ¬p c) :
    Parses (fun c => if p c then .error (.thrown e) else f c) P := by
  intro c hc b c'
  by_cases h : p c
  · simp only [if_pos h]
    constructor
    · intro hok
      cases hok
    · rintro ⟨x,hx,hpre,_⟩
      exact absurd h (hp c hc b x hx hpre)
  · simp only [if_neg h]
    exact hf c hc b c'

theorem Inside.pure (b : β) : Inside (ε := ε) fun c : Cursor α => .ok (b,c) := by
  intro c _
  refine ⟨Refuses.ok,fun b' c' h => ?_⟩
  obtain ⟨rfl,rfl⟩ := Prod.mk.inj (Except.ok.inj h)
  exact ⟨rfl,rfl⟩

theorem Inside.thrown (e : ε) :
    Inside fun _ : Cursor α => (.error (.thrown e) : Except (Halt ε) (β × Cursor α)) := by
  intro c _
  refine ⟨fun e' h => ⟨e,(Except.error.inj h).symm⟩,fun b c' h => ?_⟩
  cases h

theorem Inside.bind (hf : Inside f) (hg : ∀ b,Inside (g b)) :
    Inside fun c => f c >>= fun (b,c) => g b c := by
  intro c hc
  obtain ⟨hrefuse,hkeep⟩ := hf c hc
  cases hfc : f c with
  | error e =>
    have hbind : (f c >>= fun (b,c) => g b c)=.error e := by rw [hfc]; rfl
    change Refuses _ (f c >>= fun (b,c) => g b c) ∧ ∀ d c',(f c >>= fun (b,c) => g b c)=_ → _
    rw [hbind]
    refine ⟨fun e' h => ?_,fun d c' h => by cases h⟩
    obtain rfl := Except.error.inj h
    exact hrefuse _ hfc
  | ok p =>
    obtain ⟨b,c1⟩ := p
    have hbind : (f c >>= fun (b,c) => g b c)=g b c1 := by rw [hfc]; rfl
    obtain ⟨hmem,hstop⟩ := hkeep b c1 hfc
    have hc1 : c1.Fits := by
      rw [Cursor.Fits,hmem,hstop]
      exact hc
    obtain ⟨hrefuse',hkeep'⟩ := hg b c1 hc1
    change Refuses _ (f c >>= fun (b,c) => g b c) ∧ ∀ d c',(f c >>= fun (b,c) => g b c)=_ → _
    rw [hbind]
    refine ⟨hrefuse',fun d c' h => ?_⟩
    obtain ⟨hmem',hstop'⟩ := hkeep' d c' h
    exact ⟨hmem'.trans hmem,hstop'.trans hstop⟩

theorem Inside.ite {p : Cursor α → Prop} [∀ c,Decidable (p c)]
    {f' : Cursor α → Except (Halt ε) (β × Cursor α)} (hf : Inside f) (hf' : Inside f') :
    Inside fun c => if p c then f c else f' c := by
  intro c hc
  by_cases hp : p c
  · simp only [if_pos hp]
    exact hf c hc
  · simp only [if_neg hp]
    exact hf' c hc

end Rules

section Loop

variable {α ε σ : Type}

/-- A loop of `n` rounds over a scan, with what it has gathered. -/
def scanLoop (f : σ → Cursor α → Except (Halt ε) (σ × Cursor α)) :
    Nat → σ → Cursor α → Except (Halt ε) (σ × Cursor α)
  | 0,s,c => .ok (s,c)
  | n+1,s,c => f s c >>= fun (t,c) => scanLoop f n t c

/-- Words of the grammar one after the other, each with what it gathers. -/
inductive Chain (P : σ → σ → List α → Prop) : Nat → σ → σ → List α → Prop
  | nil (s : σ) : Chain P 0 s s []
  | cons {n : Nat} {s t u : σ} {x y : List α} : P s t x → Chain P n t u y → Chain P (n+1) s u (x++y)

theorem Parses.loop {f : σ → Cursor α → Except (Halt ε) (σ × Cursor α)} {P : σ → σ → List α → Prop}
    (hf : ∀ s,Parses (f s) (P s)) (n : Nat) (s : σ) : Parses (scanLoop f n s) (Chain P n s) := by
  induction n generalizing s with
  | zero =>
    refine (Parses.pure s).congr fun t x => ?_
    constructor
    · rintro ⟨rfl,rfl⟩
      exact .nil _
    · rintro ⟨⟩
      exact ⟨rfl,rfl⟩
  | succ n ih =>
    refine ((hf s).bind (g := scanLoop f n) ih).congr fun u z => ?_
    constructor
    · rintro ⟨t,x,y,hx,hy,rfl⟩
      exact .cons hx hy
    · rintro (_|⟨hx,hy⟩)
      exact ⟨_,_,_,hx,hy,rfl⟩

theorem Inside.loop {f : σ → Cursor α → Except (Halt ε) (σ × Cursor α)} (hf : ∀ s,Inside (f s))
    (n : Nat) (s : σ) : Inside (scanLoop f n s) := by
  induction n generalizing s with
  | zero => exact Inside.pure s
  | succ n ih => exact (hf s).bind ih

/-- A chain that gathers nothing is a sequence of words. -/
theorem chain_unit_iff {P : List α → Prop} {n : Nat} {y : List α} :
    Chain (fun _ _ : Unit => P) n () () y ↔
      ∃ xs : List (List α),xs.length=n ∧ (∀ x∈xs,P x) ∧ y=xs.flatten := by
  constructor
  · intro h
    induction n generalizing y with
    | zero =>
      cases h
      exact ⟨[],rfl,by simp,rfl⟩
    | succ n ih =>
      obtain (_|⟨hx,hy⟩) := h
      obtain ⟨xs,hlen,hxs,rfl⟩ := ih hy
      exact ⟨_::xs,by rw [List.length_cons,hlen],List.forall_mem_cons.mpr ⟨hx,hxs⟩,rfl⟩
  · rintro ⟨xs,rfl,hxs,rfl⟩
    induction xs with
    | nil => exact .nil ()
    | cons x xs ih =>
      obtain ⟨hx,hxs⟩ := List.forall_mem_cons.mp hxs
      exact .cons hx (ih hxs)

/-- Where each word adds what it says, a chain is a sequence of such words with their sum. -/
theorem chain_fold_iff {μ : Type} {P : σ → σ → List α → Prop} {E : μ → List α → Prop}
    (add : σ → μ → σ) (hP : ∀ s t x,P s t x ↔ ∃ m,E m x ∧ t=add s m) {n : Nat} {s t : σ}
    {y : List α} : Chain P n s t y ↔ ∃ ms : List μ,∃ xs : List (List α),ms.length=n ∧
      List.Forall₂ E ms xs ∧ t=ms.foldl add s ∧ y=xs.flatten := by
  constructor
  · intro h
    induction h with
    | nil s => exact ⟨[],[],rfl,.nil,rfl,rfl⟩
    | cons hx _ ih =>
      obtain ⟨m,hm,rfl⟩ := (hP _ _ _).mp hx
      obtain ⟨ms,xs,rfl,hms,rfl,rfl⟩ := ih
      exact ⟨m::ms,_::xs,rfl,.cons hm hms,rfl,rfl⟩
  · rintro ⟨ms,xs,rfl,hms,rfl,rfl⟩
    induction hms generalizing s with
    | nil => exact .nil s
    | cons hm _ ih => exact .cons ((hP _ _ _).mpr ⟨_,hm,rfl⟩) ih

/-- Words that are never shorter than `unit` take their room. -/
theorem Chain.length_le {P : σ → σ → List α → Prop} {unit : Nat}
    (hP : ∀ s t x,P s t x → unit ≤ x.length) {n : Nat} {s t : σ} {x : List α}
    (h : Chain P n s t x) : n*unit ≤ x.length := by
  induction h with
  | nil s => simp
  | cons hx _ ih =>
    rw [List.length_append,Nat.succ_mul,Nat.add_comm]
    exact Nat.add_le_add (hP _ _ _ hx) ih

end Loop

end FastPki
