import FastPki.Framework.Scan
import FastPki.Profile.CertProfile
import FastPki.X509.Name
import Mathlib.Algebra.BigOperators.Group.List.Basic

namespace FastPki.Cbor
open X509

abbrev Reader := Cursor UInt8

abbrev Result := Except (Halt Error)

def kMaxDepth : Nat := 8

/-- `what` names the object in every error. -/
def bad {β : Type} (what why : String) : Result β :=
  .error (.thrown ⟨1,what++": "++why⟩)

section Code

variable (what : String)

def byte (c : Reader) : Result (UInt8 × Reader) :=
  if c.pos ≥ c.stop then bad what "truncated"
  else Cursor.deref c.mem c.pos >>= fun b => .ok (b,c.advance 1)

/-- The octets of an argument, most significant first, into 64 bits. -/
def argBytes : Nat → Nat → Reader → Result (Nat × Reader)
  | 0,arg,c => .ok (arg,c)
  | n+1,arg,c => byte what c >>= fun (b,c) => argBytes n ((arg*256+b.toNat)%2^64) c

def argWidth (info : Nat) : Option Nat :=
  match info with
  | 24 => some 1
  | 25 => some 2
  | 26 => some 4
  | 27 => some 8
  | _ => none

def headOf (b : UInt8) (c : Reader) : Result ((Nat × Nat) × Reader) :=
  let major := (b>>>5).toNat
  let info := (b &&& 0x1f).toNat
  if info < 24 then .ok ((major,info),c)
  else
    match argWidth info with
    | some n => argBytes what n 0 c >>= fun (arg,c) => .ok ((major,arg),c)
    | none =>
      if info = 31 then bad what "indefinite lengths are not accepted"
      else bad what "reserved additional-information value"

/-- The major type and the argument of an item head. -/
def head (c : Reader) : Result ((Nat × Nat) × Reader) := byte what c >>= fun (b,c) => headOf what b c

def take (n : Nat) (c : Reader) : Result (Unit × Reader) :=
  if n > c.left then bad what "length runs past the end" else .ok ((),c.advance n)

/-- The octets of the view that `take` returns. -/
def taken (n : Nat) (c : Reader) : Result (Octets × Reader) :=
  take what n c >>= fun (_,after) => Cursor.copy c.mem c.pos n >>= fun v => .ok (v,after)

/-- What follows a head; `inner` skips one item a level further down. -/
def skipBody (inner : Reader → Result (Unit × Reader)) (head : Nat × Nat) (c : Reader) : Result (Unit × Reader) :=
  let (major,arg) := head
  if major = 0 ∨ major = 1 then .ok ((),c)
  else if major = 2 ∨ major = 3 then take what arg c
  else if major = 4 then
    if arg > c.left then bad what "array count runs past the end"
    else scanLoop (fun _ => inner) arg () c
  else if major = 5 then
    if arg > c.left/2 then bad what "map count runs past the end"
    else scanLoop (fun _ c => inner c >>= fun (_,c) => inner c) arg () c
  else if major = 6 then inner c
  else .ok ((),c)

/-- Skips one item where so many levels are left. -/
def skipLevels : Nat → Reader → Result (Unit × Reader)
  | 0,_ => bad what "nested too deeply"
  | level+1,c => head what c >>= fun (h,c) => skipBody what (skipLevels level) h c

def skip (depth : Nat) (c : Reader) : Result (Unit × Reader) := skipLevels what (kMaxDepth+1-depth) c

/-- The octets of a string, where its head has this major type. -/
def stringOf (major : Nat) (why : String) (head : Nat × Nat) (c : Reader) :
    Result (Octets × Reader) :=
  if head.1 ≠ major then bad what why else taken what head.2 c

def text (c : Reader) : Result (Octets × Reader) :=
  head what c >>= fun (h,c) => stringOf what 3 "expected a text string" h c

def bytes (c : Reader) : Result (Octets × Reader) :=
  head what c >>= fun (h,c) => stringOf what 2 "expected a byte string" h c

def integerOf (head : Nat × Nat) (c : Reader) : Result (Int × Reader) :=
  if head.1 ≠ 0 ∧ head.1 ≠ 1 then bad what "expected an integer"
  else if head.2 > 2^63-1 then bad what "integer out of range"
  else .ok (if head.1 = 0 then (head.2 : Int) else -1-(head.2 : Int),c)

/-- Within the range of an `int64_t`. -/
def integer (c : Reader) : Result (Int × Reader) :=
  head what c >>= fun (h,c) => integerOf what h c

/-- A count of items in groups of `unit`, of which none is empty. -/
def countOf (major unit : Nat) (why past : String) (head : Nat × Nat) (c : Reader) :
    Result (Nat × Reader) :=
  if head.1 ≠ major then bad what why
  else if head.2 > c.left/unit then bad what past
  else .ok (head.2,c)

def mapCount (c : Reader) : Result (Nat × Reader) :=
  head what c >>= fun (h,c) => countOf what 5 2 "expected a map" "map count runs past the end" h c

def arrayCount (c : Reader) : Result (Nat × Reader) :=
  head what c >>= fun (h,c) =>
    countOf what 4 1 "expected an array" "array count runs past the end" h c

/-- The major type of the next item, which stays to be read. -/
def peekMajor (c : Reader) : Result (Nat × Reader) :=
  if c.pos ≥ c.stop then bad what "truncated"
  else Cursor.deref c.mem c.pos >>= fun b => .ok ((b>>>5).toNat,c)

def keyOf (major : Nat) (c : Reader) : Result (Octets × Reader) :=
  if major = 3 then text what c else skip what 1 c >>= fun (_,c) => .ok ([],c)

/-- A map key that is a text; a key of another type is skipped and reads as empty. -/
def key (c : Reader) : Result (Octets × Reader) :=
  peekMajor what c >>= fun (major,c) => keyOf what major c

end Code

section Grammar

def bigEndian (t : Octets) : Nat := t.foldl (fun n b => n*256+b.toNat) 0

/-- A head of this major type and argument. No width is known for 28 to 31. -/
def IsHead (head : Nat × Nat) (x : Octets) : Prop :=
  ∃ b t,x=b::t ∧ head.1=(b>>>5).toNat ∧
    (((b &&& 0x1f).toNat<24 ∧ t=[] ∧ head.2=(b &&& 0x1f).toNat) ∨
      (24≤(b &&& 0x1f).toNat ∧ argWidth (b &&& 0x1f).toNat=some t.length ∧ head.2=bigEndian t))

/-- An item that is nested no deeper than this. -/
inductive Item : Nat → Octets → Prop
  | scalar {depth major arg : Nat} {h : Octets} : IsHead (major,arg) h →
      major=0 ∨ major=1 ∨ major=7 → Item (depth+1) h
  | string {depth major arg : Nat} {h body : Octets} : IsHead (major,arg) h →
      major=2 ∨ major=3 → body.length=arg → Item (depth+1) (h++body)
  | array {depth arg : Nat} {h : Octets} {items : List Octets} : IsHead (4,arg) h →
      items.length=arg → (∀ x∈items,Item depth x) → Item (depth+1) (h++items.flatten)
  | map {depth arg : Nat} {h : Octets} {items : List Octets} : IsHead (5,arg) h →
      items.length=2*arg → (∀ x∈items,Item depth x) → Item (depth+1) (h++items.flatten)
  | tag {depth arg : Nat} {h x : Octets} : IsHead (6,arg) h → Item depth x → Item (depth+1) (h++x)

end Grammar

section Parses

variable {what : String}

theorem byte_parses : Parses (byte what) fun b x => x=[b] := by
  intro c hc b c'
  by_cases hend : c.pos ≥ c.stop
  · rw [byte,if_pos hend]
    constructor
    · intro h
      cases h
    · rintro ⟨x,rfl,hpre,_⟩
      rw [Cursor.rest_eq_nil hend] at hpre
      exact absurd hpre (by simp)
  · obtain ⟨a,ha,hrest⟩ := hc.rest_cons (not_le.mp hend)
    have hbyte : byte what c=.ok (a,c.advance 1) := by
      rw [byte,if_neg hend,Cursor.deref,ha]
      rfl
    rw [hbyte]
    constructor
    · intro h
      obtain ⟨rfl,rfl⟩ := Prod.mk.inj (Except.ok.inj h)
      exact ⟨[a],rfl,by rw [hrest]; simp,rfl⟩
    · rintro ⟨x,rfl,hpre,rfl⟩
      rw [hrest] at hpre
      obtain ⟨t,ht⟩ := hpre
      rw [(List.cons.inj ht).1]
      rfl

theorem argBytes_parses (n arg : Nat) : Parses (argBytes what n arg) fun a x =>
    x.length=n ∧ a=x.foldl (fun n b => (n*256+b.toNat)%2^64) arg := by
  induction n generalizing arg with
  | zero =>
    refine (Parses.pure arg).congr fun a x => ?_
    constructor
    · rintro ⟨rfl,rfl⟩
      exact ⟨rfl,rfl⟩
    · rintro ⟨hlen,rfl⟩
      obtain rfl := List.eq_nil_of_length_eq_zero hlen
      exact ⟨rfl,rfl⟩
  | succ n ih =>
    refine (byte_parses.bind fun b => ih ((arg*256+b.toNat)%2^64)).congr fun a z => ?_
    constructor
    · rintro ⟨b,x,y,rfl,⟨hlen,rfl⟩,rfl⟩
      exact ⟨by simp [hlen],rfl⟩
    · rintro ⟨hlen,rfl⟩
      cases z with
      | nil => cases hlen
      | cons b y => exact ⟨b,[b],y,rfl,⟨by simpa using hlen,rfl⟩,rfl⟩

/-- Eight octets fit into 64 bits. -/
theorem foldl_mod_eq {t : Octets} (h : t.length ≤ 8) :
    t.foldl (fun n b => (n*256+b.toNat)%2^64) 0=bigEndian t := by
  have hgen : ∀ (t : Octets) (n k : Nat),t.length+k ≤ 8 → n<256^k →
      t.foldl (fun n b => (n*256+b.toNat)%2^64) n=t.foldl (fun n b => n*256+b.toNat) n := by
    intro t
    induction t with
    | nil => exact fun n k _ _ => rfl
    | cons b t ih =>
      intro n k hk hn
      rw [List.length_cons] at hk
      have hb := b.toNat_lt
      have hnext : n*256+b.toNat<256^(k+1) := by
        rw [Nat.pow_succ]
        omega
      have hfit : n*256+b.toNat<2^64 := hnext.trans_le (by
        calc 256^(k+1) ≤ 256^8 := Nat.pow_le_pow_right (by omega) (by omega)
          _ = 2^64 := by decide)
      rw [List.foldl_cons,List.foldl_cons,Nat.mod_eq_of_lt hfit]
      exact ih _ (k+1) (by omega) hnext
  exact hgen t 0 0 (by omega) (by decide)

theorem argWidth_le {info n : Nat} (h : argWidth info=some n) : n ≤ 8 := by
  unfold argWidth at h
  split at h <;> simp at h <;> omega

theorem head_parses : Parses (head what) IsHead := by
  have hof : ∀ b,Parses (headOf what b) fun h t => h.1=(b>>>5).toNat ∧
      (((b &&& 0x1f).toNat<24 ∧ t=[] ∧ h.2=(b &&& 0x1f).toNat) ∨
        (24≤(b &&& 0x1f).toNat ∧ argWidth (b &&& 0x1f).toNat=some t.length ∧ h.2=bigEndian t)) := by
    intro b
    by_cases hsmall : (b &&& 0x1f).toNat<24
    · have hcode : headOf what b=fun c => .ok (((b>>>5).toNat,(b &&& 0x1f).toNat),c) := by
        funext c
        simp only [headOf,if_pos hsmall]
      rw [hcode]
      refine (Parses.pure _).congr fun h t => ?_
      constructor
      · rintro ⟨rfl,rfl⟩
        exact ⟨rfl,Or.inl ⟨hsmall,rfl,rfl⟩⟩
      · rintro ⟨hmajor,⟨_,rfl,harg⟩|⟨hbig,_⟩⟩
        · exact ⟨Prod.ext hmajor harg,rfl⟩
        · omega
    · cases hw : argWidth (b &&& 0x1f).toNat with
      | none =>
        have hcode : ∃ e,headOf what b=fun _ => .error (.thrown e) := by
          by_cases hindef : (b &&& 0x1f).toNat=31
          · exact ⟨_,by funext c; simp only [headOf,if_neg hsmall,hw,if_pos hindef,bad]; rfl⟩
          · exact ⟨_,by funext c; simp only [headOf,if_neg hsmall,hw,if_neg hindef,bad]; rfl⟩
        obtain ⟨e,hcode⟩ := hcode
        rw [hcode]
        refine (Parses.refused e).congr fun h t => iff_of_false id ?_
        rintro ⟨_,⟨h24,_⟩|⟨_,hnone,_⟩⟩
        · exact hsmall h24
        · cases hnone
      | some n =>
        have hcode : headOf what b=fun c => argBytes what n 0 c >>= fun (arg,c) =>
            .ok (((b>>>5).toNat,arg),c) := by
          funext c
          simp only [headOf,if_neg hsmall,hw]
        rw [hcode]
        refine ((argBytes_parses n 0).bind fun arg => Parses.pure ((b>>>5).toNat,arg)).congr
          fun h t => ?_
        constructor
        · rintro ⟨arg,x,y,⟨hlen,rfl⟩,⟨rfl,rfl⟩,rfl⟩
          rw [List.append_nil]
          refine ⟨rfl,Or.inr ⟨by omega,by rw [hlen],foldl_mod_eq ?_⟩⟩
          rw [hlen]
          exact argWidth_le hw
        · rintro ⟨hmajor,⟨h24,_⟩|⟨_,hlen,harg⟩⟩
          · omega
          · have hn : t.length=n := (Option.some.inj hlen).symm
            refine ⟨h.2,t,[],⟨hn,?_⟩,⟨Prod.ext hmajor rfl,rfl⟩,by simp⟩
            rw [harg,foldl_mod_eq (hn ▸ argWidth_le hw)]
  refine (byte_parses.bind hof).congr fun h x => ?_
  constructor
  · rintro ⟨b,_,t,rfl,ht,rfl⟩
    exact ⟨b,t,rfl,ht⟩
  · rintro ⟨b,t,rfl,ht⟩
    exact ⟨b,[b],t,rfl,ht,rfl⟩

theorem take_parses (n : Nat) : Parses (take what n) fun _ x => x.length=n := by
  intro c hc b c'
  rw [take]
  by_cases hlen : n > c.left
  · rw [if_pos hlen]
    constructor
    · intro h
      cases h
    · rintro ⟨x,rfl,hpre,_⟩
      have hle := hpre.length_le
      rw [hc.length_rest] at hle
      omega
  · rw [if_neg hlen]
    constructor
    · intro h
      obtain ⟨_,rfl⟩ := Prod.mk.inj (Except.ok.inj h)
      have hx : (c.rest.take n).length=n := by
        rw [List.length_take,hc.length_rest]
        omega
      exact ⟨c.rest.take n,hx,List.take_prefix n _,by rw [hx]⟩
    · rintro ⟨x,rfl,_,rfl⟩
      rfl

theorem taken_parses (n : Nat) : Parses (taken what n) fun v x => v=x ∧ x.length=n := by
  intro c hc v c'
  rw [taken,take]
  by_cases hlen : n > c.left
  · rw [if_pos hlen]
    constructor
    · intro h
      cases h
    · rintro ⟨x,⟨_,rfl⟩,hpre,_⟩
      have hle := hpre.length_le
      rw [hc.length_rest] at hle
      omega
  · rw [if_neg hlen]
    have hcopy : (Cursor.copy c.mem c.pos n : Result Octets)=.ok (c.rest.take n) :=
      hc.copy (not_lt.mp hlen)
    have hx : (c.rest.take n).length=n := by
      rw [List.length_take,hc.length_rest]
      omega
    change ((Cursor.copy c.mem c.pos n : Result Octets) >>= fun v => .ok (v,c.advance n))=_ ↔ _
    rw [hcopy]
    constructor
    · intro h
      obtain ⟨rfl,rfl⟩ := Prod.mk.inj (Except.ok.inj h)
      exact ⟨_,⟨rfl,hx⟩,List.take_prefix n _,by rw [hx]⟩
    · rintro ⟨x,⟨rfl,rfl⟩,hpre,rfl⟩
      rw [← List.prefix_iff_eq_take.mp hpre]
      rfl

theorem IsHead.length_pos {h : Nat × Nat} {x : Octets} (hx : IsHead h x) : 1 ≤ x.length := by
  obtain ⟨b,t,rfl,_⟩ := hx
  simp

theorem IsHead.major_le {major arg : Nat} {x : Octets} (hx : IsHead (major,arg) x) : major ≤ 7 := by
  obtain ⟨b,t,_,rfl,_⟩ := hx
  have hb := b.toNat_lt
  have hfive : UInt8.toNat 5%8=5 := rfl
  rw [UInt8.toNat_shiftRight,Nat.shiftRight_eq_div_pow,hfive]
  omega

theorem Item.length_pos {depth : Nat} {x : Octets} (h : Item depth x) : 1 ≤ x.length := by
  cases h with
  | scalar hh _ => exact hh.length_pos
  | string hh _ _ => exact hh.length_pos.trans (by simp)
  | array hh _ _ => exact hh.length_pos.trans (by simp)
  | map hh _ _ => exact hh.length_pos.trans (by simp)
  | tag hh _ => exact hh.length_pos.trans (by simp)

/-- Items in pairs are items one after the other. -/
theorem pairs_iff {P : Octets → Prop} {n : Nat} {y : Octets} :
    (∃ zs : List Octets,zs.length=n ∧ (∀ z∈zs,∃ u v,P u ∧ P v ∧ z=u++v) ∧ y=zs.flatten) ↔
      ∃ xs : List Octets,xs.length=2*n ∧ (∀ x∈xs,P x) ∧ y=xs.flatten := by
  constructor
  · rintro ⟨zs,rfl,hzs,rfl⟩
    induction zs with
    | nil => exact ⟨[],rfl,by simp,rfl⟩
    | cons z zs ih =>
      obtain ⟨⟨u,v,hu,hv,rfl⟩,hrest⟩ := List.forall_mem_cons.mp hzs
      obtain ⟨xs,hlen,hxs,hflat⟩ := ih hrest
      refine ⟨u::v::xs,?_,?_,by simp [hflat]⟩
      · simp only [List.length_cons,hlen]
        omega
      · exact List.forall_mem_cons.mpr ⟨hu,List.forall_mem_cons.mpr ⟨hv,hxs⟩⟩
  · rintro ⟨xs,hlen,hxs,rfl⟩
    induction n generalizing xs with
    | zero =>
      obtain rfl := List.eq_nil_of_length_eq_zero hlen
      exact ⟨[],rfl,by simp,rfl⟩
    | succ n ih =>
      match xs with
      | [] => simp at hlen
      | [u] => simp only [List.length_cons,List.length_nil] at hlen; omega
      | u::v::xs =>
        simp only [List.length_cons] at hlen
        obtain ⟨hu,hxs⟩ := List.forall_mem_cons.mp hxs
        obtain ⟨hv,hxs⟩ := List.forall_mem_cons.mp hxs
        obtain ⟨zs,hlen',hzs,hflat⟩ := ih xs (by omega) hxs
        refine ⟨(u++v)::zs,by rw [List.length_cons,hlen'],?_,by simp [hflat]⟩
        exact List.forall_mem_cons.mpr ⟨⟨u,v,hu,hv,rfl⟩,hzs⟩

/-- What may follow a head, where `P` is the grammar of the items inside. -/
def Body (P : Octets → Prop) (head : Nat × Nat) (y : Octets) : Prop :=
  ((head.1=0 ∨ head.1=1) ∧ y=[]) ∨ ((head.1=2 ∨ head.1=3) ∧ y.length=head.2) ∨
    (head.1=4 ∧ ∃ xs : List Octets,xs.length=head.2 ∧ (∀ x∈xs,P x) ∧ y=xs.flatten) ∨
    (head.1=5 ∧ ∃ xs : List Octets,xs.length=2*head.2 ∧ (∀ x∈xs,P x) ∧ y=xs.flatten) ∨
    (head.1=6 ∧ P y) ∨ (7 ≤ head.1 ∧ y=[])

theorem skipBody_parses {inner : Reader → Result (Unit × Reader)} {P : Octets → Prop}
    (hinner : Parses inner fun _ x => P x) (hpos : ∀ x,P x → 1 ≤ x.length) (head : Nat × Nat) :
    Parses (skipBody what inner head) fun _ y => Body P head y := by
  have hflat : ∀ (c : Reader) (n : Nat) (xs : List Octets),c.Fits → xs.length=n →
      (∀ x∈xs,P x) → xs.flatten<+:c.rest → n ≤ c.left := by
    intro c n xs hc hn hxs hpre
    have hle := hpre.length_le
    rw [hc.length_rest,List.length_flatten] at hle
    have hsum := List.length_le_sum_of_one_le (xs.map List.length) fun i hi => by
      obtain ⟨x,hx,rfl⟩ := List.mem_map.mp hi
      exact hpos x (hxs x hx)
    rw [List.length_map] at hsum
    omega
  obtain ⟨major,arg⟩ := head
  match major with
  | 0 =>
    refine (Parses.pure ()).congr fun b y => ?_
    simp [Body]
  | 1 =>
    refine (Parses.pure ()).congr fun b y => ?_
    simp [Body]
  | 2 =>
    refine (take_parses arg).congr fun b y => ?_
    simp [Body]
  | 3 =>
    refine (take_parses arg).congr fun b y => ?_
    simp [Body]
  | 4 =>
    have hloop : Parses (scanLoop (fun _ => inner) arg ()) fun _ y =>
        ∃ xs : List Octets,xs.length=arg ∧ (∀ x∈xs,P x) ∧ y=xs.flatten :=
      (Parses.loop (fun _ => hinner) arg ()).congr fun b y => chain_unit_iff
    have hguard := hloop.guarded (p := fun c => arg > c.left)
      (e := ⟨1,what++": "++"array count runs past the end"⟩) fun c hc b y hy hpre hlt => by
        obtain ⟨xs,hlen,hxs,rfl⟩ := hy
        exact absurd (hflat c arg xs hc hlen hxs hpre) (not_le.mpr hlt)
    refine hguard.congr fun b y => ?_
    simp [Body]
  | 5 =>
    have hloop : Parses (scanLoop (fun _ c => inner c >>= fun (_,c) => inner c) arg ()) fun _ y =>
        ∃ xs : List Octets,xs.length=2*arg ∧ (∀ x∈xs,P x) ∧ y=xs.flatten := by
      have htwo : Parses (fun c => inner c >>= fun (_,c) => inner c) fun _ z =>
          ∃ u v,P u ∧ P v ∧ z=u++v :=
        (hinner.bind fun _ => hinner).congr fun b z =>
          ⟨fun ⟨_,h⟩ => h,fun h => ⟨(),h⟩⟩
      exact (Parses.loop (fun _ => htwo) arg ()).congr fun b y => chain_unit_iff.trans pairs_iff
    have hguard := hloop.guarded (p := fun c => arg > c.left/2)
      (e := ⟨1,what++": "++"map count runs past the end"⟩) fun c hc b y hy hpre hlt => by
        obtain ⟨xs,hlen,hxs,rfl⟩ := hy
        have hle := hflat c (2*arg) xs hc hlen hxs hpre
        omega
    refine hguard.congr fun b y => ?_
    simp [Body]
  | 6 =>
    refine hinner.congr fun b y => ?_
    simp [Body]
  | n+7 =>
    refine (Parses.pure ()).congr fun b y => ?_
    simp [Body]

theorem item_succ_iff {depth : Nat} {x : Octets} : Item (depth+1) x ↔
    ∃ head h y,IsHead head h ∧ Body (Item depth) head y ∧ x=h++y := by
  constructor
  · intro hx
    cases hx with
    | scalar hh hmajor =>
      refine ⟨_,x,[],hh,?_,by simp⟩
      rcases hmajor with rfl|rfl|rfl
      · exact Or.inl ⟨Or.inl rfl,rfl⟩
      · exact Or.inl ⟨Or.inr rfl,rfl⟩
      · simp [Body]
    | string hh hmajor hlen => exact ⟨_,_,_,hh,Or.inr (Or.inl ⟨hmajor,hlen⟩),rfl⟩
    | array hh hlen hxs =>
      exact ⟨_,_,_,hh,Or.inr (Or.inr (Or.inl ⟨rfl,_,hlen,hxs,rfl⟩)),rfl⟩
    | map hh hlen hxs =>
      exact ⟨_,_,_,hh,Or.inr (Or.inr (Or.inr (Or.inl ⟨rfl,_,hlen,hxs,rfl⟩))),rfl⟩
    | tag hh hx =>
      exact ⟨_,_,_,hh,Or.inr (Or.inr (Or.inr (Or.inr (Or.inl ⟨rfl,hx⟩)))),rfl⟩
  · rintro ⟨⟨major,arg⟩,h,y,hh,hbody,rfl⟩
    rcases hbody with ⟨hmajor,rfl⟩|⟨hmajor,hlen⟩|⟨rfl,xs,hlen,hxs,rfl⟩|⟨rfl,xs,hlen,hxs,rfl⟩|
      ⟨rfl,hy⟩|⟨hmajor,rfl⟩
    · rw [List.append_nil]
      exact .scalar hh (hmajor.imp id Or.inl)
    · exact .string hh hmajor hlen
    · exact .array hh hlen hxs
    · exact .map hh hlen hxs
    · exact .tag hh hy
    · rw [List.append_nil]
      exact .scalar hh (Or.inr (Or.inr (le_antisymm hh.major_le hmajor)))

theorem skipLevels_parses (level : Nat) : Parses (skipLevels what level) fun _ x => Item level x := by
  induction level with
  | zero =>
    refine (Parses.refused _).congr fun b x => iff_of_false id ?_
    rintro ⟨⟩
  | succ level ih =>
    have hbody : ∀ head,Parses (skipBody what (skipLevels what level) head)
        fun _ y => Body (Item level) head y :=
      skipBody_parses ih fun _ hx => Item.length_pos hx
    refine (head_parses.bind hbody).congr fun b x => ?_
    exact item_succ_iff.symm

/-- One item is skipped, whatever it is, where it is not nested too deeply. -/
theorem skip_parses (depth : Nat) :
    Parses (skip what depth) fun _ x => Item (kMaxDepth+1-depth) x :=
  skipLevels_parses _

def TextItem (t x : Octets) : Prop := ∃ h,IsHead (3,t.length) h ∧ x=h++t

def BytesItem (v x : Octets) : Prop := ∃ h,IsHead (2,v.length) h ∧ x=h++v

/-- A key: a text, or an item of another type, which reads as empty. -/
def KeyItem (k x : Octets) : Prop :=
  TextItem k x ∨ (k=[] ∧ Item kMaxDepth x ∧ x.head?.map (fun b : UInt8 => (b>>>5).toNat)≠some 3)

theorem stringOf_parses (major : Nat) (why : String) (head : Nat × Nat) :
    Parses (stringOf what major why head) fun v y => head.1=major ∧ v=y ∧ y.length=head.2 := by
  by_cases hm : head.1=major
  · have hcode : stringOf what major why head=taken what head.2 := by
      funext c
      rw [stringOf,if_neg (not_not.mpr hm)]
    rw [hcode]
    exact (taken_parses head.2).congr fun v y => (and_iff_right hm).symm
  · have hcode : stringOf what major why head=
        fun _ => .error (.thrown ⟨1,what++": "++why⟩) := by
      funext c
      rw [stringOf,if_pos hm]
      rfl
    rw [hcode]
    exact (Parses.refused _).congr fun v y => iff_of_false id fun h => hm h.1

/-- A head of the one major type and the octets it counts. -/
theorem string_parses (major : Nat) (why : String) :
    Parses (fun c => head what c >>= fun (h,c) => stringOf what major why h c)
      fun v x => ∃ h,IsHead (major,v.length) h ∧ x=h++v := by
  refine (head_parses.bind (stringOf_parses major why)).congr fun v x => ?_
  constructor
  · rintro ⟨⟨m,n⟩,h,y,hh,⟨rfl,rfl,rfl⟩,rfl⟩
    exact ⟨h,hh,rfl⟩
  · rintro ⟨h,hh,rfl⟩
    exact ⟨_,h,v,hh,⟨rfl,rfl,rfl⟩,rfl⟩

theorem text_parses : Parses (text what) TextItem := string_parses 3 _

theorem bytes_parses : Parses (bytes what) BytesItem := string_parses 2 _

/-- A count is believed where what follows has the room for it, which it has where it parses. -/
theorem count_parses {β : Type} {g : Nat → Reader → Result (β × Reader)}
    {Q : Nat → β → Octets → Prop} (unit : Nat) (hunit : 0<unit) (hg : ∀ n,Parses (g n) (Q n))
    (hroom : ∀ n b y,Q n b y → n*unit ≤ y.length) (major : Nat) (why past : String) :
    Parses (fun c => (head what c >>= fun (h,c) => countOf what major unit why past h c) >>=
      fun (n,c) => g n c) fun b z => ∃ n h y,IsHead (major,n) h ∧ Q n b y ∧ z=h++y := by
  have hof : ∀ head : Nat × Nat,
      Parses (fun c => countOf what major unit why past head c >>= fun (n,c) => g n c)
        fun b y => head.1=major ∧ Q head.2 b y := by
    intro head c hc b c'
    by_cases hm : head.1=major
    · have hleft : ∀ y,Q head.2 b y → y<+:c.rest → ¬head.2>c.left/unit := by
        intro y hy hpre
        have hle := hpre.length_le
        rw [hc.length_rest] at hle
        exact not_lt.mpr ((Nat.le_div_iff_mul_le hunit).mpr ((hroom _ _ _ hy).trans hle))
      simp only [countOf,if_neg (not_not.mpr hm)]
      by_cases hpast : head.2>c.left/unit
      · rw [if_pos hpast]
        constructor
        · intro h
          cases h
        · rintro ⟨y,⟨_,hy⟩,hpre,_⟩
          exact absurd hpast (hleft y hy hpre)
      · rw [if_neg hpast]
        simp only [hm,true_and]
        exact hg head.2 c hc b c'
    · simp only [countOf,if_pos hm]
      constructor
      · intro h
        cases h
      · rintro ⟨y,⟨hy,_⟩,_⟩
        exact absurd hy hm
  have hbind : (fun c => (head what c >>= fun (h,c) => countOf what major unit why past h c) >>=
      fun (n,c) => g n c)=fun c => head what c >>= fun (h,c) =>
        countOf what major unit why past h c >>= fun (n,c) => g n c := by
    funext c
    cases head what c with
    | error e => rfl
    | ok p => rfl
  rw [hbind]
  refine (head_parses.bind hof).congr fun b z => ?_
  constructor
  · rintro ⟨⟨m,n⟩,h,y,hh,⟨rfl,hy⟩,rfl⟩
    exact ⟨n,h,y,hh,hy,rfl⟩
  · rintro ⟨n,h,y,hh,hy,rfl⟩
    exact ⟨_,h,y,hh,⟨rfl,hy⟩,rfl⟩

theorem IsHead.head? {major arg : Nat} {h y : Octets} (hh : IsHead (major,arg) h) :
    (h++y).head?.map (fun b : UInt8 => (b>>>5).toNat)=some major := by
  obtain ⟨b,t,rfl,rfl,_⟩ := hh
  rfl

theorem KeyItem.length_pos {k x : Octets} (h : KeyItem k x) : 1 ≤ x.length := by
  rcases h with ⟨hd,hh,rfl⟩|⟨_,hitem,_⟩
  · exact hh.length_pos.trans (by simp)
  · exact hitem.length_pos

theorem key_parses : Parses (key what) KeyItem := by
  intro c hc k c'
  by_cases hend : c.pos ≥ c.stop
  · have hfail : key what c=bad what "truncated" := by
      rw [key,peekMajor,if_pos hend]
      rfl
    rw [hfail,Cursor.rest_eq_nil hend]
    constructor
    · intro h
      cases h
    · rintro ⟨x,hx,hpre,_⟩
      rw [List.prefix_nil.mp hpre] at hx
      exact absurd hx.length_pos (by simp)
  · obtain ⟨b,hb,hrest⟩ := hc.rest_cons (not_le.mp hend)
    have hpeek : peekMajor what c=.ok ((b>>>5).toNat,c) := by
      rw [peekMajor,if_neg hend,Cursor.deref,hb]
      rfl
    have hfirst : ∀ x,x<+:c.rest → 1 ≤ x.length →
        x.head?.map (fun b : UInt8 => (b>>>5).toNat)=some (b>>>5).toNat := by
      intro x hpre hlen
      cases x with
      | nil => exact absurd hlen (by simp)
      | cons a x =>
        rw [hrest] at hpre
        obtain ⟨t,ht⟩ := hpre
        rw [(List.cons.inj ht).1]
        rfl
    have hkey : key what c=(if (b>>>5).toNat = 3 then text what c
        else skip what 1 c >>= fun (_,c) => .ok ([],c)) := by
      rw [key,hpeek]
      rfl
    rw [hkey]
    by_cases htext : (b>>>5).toNat=3
    · rw [if_pos htext,text_parses c hc k c']
      constructor
      · rintro ⟨x,hx,hrest⟩
        exact ⟨x,Or.inl hx,hrest⟩
      · rintro ⟨x,hx|⟨_,hitem,hmajor⟩,hpre,hc'⟩
        · exact ⟨x,hx,hpre,hc'⟩
        · rw [hfirst x hpre hitem.length_pos,htext] at hmajor
          exact absurd rfl hmajor
    · rw [if_neg htext,((skip_parses 1).bind fun _ => Parses.pure []) c hc k c']
      constructor
      · rintro ⟨z,⟨_,x,y,hitem,⟨rfl,rfl⟩,rfl⟩,hpre,hc'⟩
        rw [List.append_nil] at hpre hc'
        refine ⟨x,Or.inr ⟨rfl,hitem,?_⟩,hpre,hc'⟩
        rw [hfirst x hpre hitem.length_pos]
        simpa using htext
      · rintro ⟨x,⟨h,hh,rfl⟩|⟨rfl,hitem,_⟩,hpre,hc'⟩
        · have hmajor := hfirst _ hpre (hh.length_pos.trans (by simp))
          rw [hh.head?] at hmajor
          exact absurd (Option.some.inj hmajor).symm htext
        · exact ⟨x,⟨(),x,[],hitem,⟨rfl,rfl⟩,by simp⟩,hpre,hc'⟩

end Parses

section Inside

variable {what : String}

theorem bad_inside {β : Type} (why : String) : Inside fun _ : Reader =>
    (bad what why : Result (β × Reader)) := Inside.thrown _

/-- The next octet is read where there is one. -/
theorem peek_inside {β : Type} (f : UInt8 → Reader → β × Reader)
    (hf : ∀ b c,(f b c).2.mem=c.mem ∧ (f b c).2.stop=c.stop) (why : String) :
    Inside fun c : Reader => if c.pos ≥ c.stop then (bad what why : Result (β × Reader))
      else Cursor.deref c.mem c.pos >>= fun b => .ok (f b c) := by
  intro c hc
  by_cases hend : c.pos ≥ c.stop
  · simp only [if_pos hend]
    exact bad_inside why c hc
  · obtain ⟨b,hb,_⟩ := hc.rest_cons (not_le.mp hend)
    have hok : (Cursor.deref c.mem c.pos >>= fun b => .ok (f b c) : Result (β × Reader))=
        .ok (f b c) := by
      rw [Cursor.deref,hb]
      rfl
    simp only [if_neg hend,hok]
    refine ⟨Refuses.ok,fun d c' h => ?_⟩
    rw [← (Prod.mk.inj (Except.ok.inj h)).2]
    exact hf b c

theorem byte_inside : Inside (byte what) :=
  peek_inside (fun b c => (b,c.advance 1)) (fun _ _ => ⟨rfl,rfl⟩) _

theorem peekMajor_inside : Inside (peekMajor what) :=
  peek_inside (fun b c => ((b>>>5).toNat,c)) (fun _ _ => ⟨rfl,rfl⟩) _

theorem argBytes_inside (n arg : Nat) : Inside (argBytes what n arg) := by
  induction n generalizing arg with
  | zero => exact Inside.pure arg
  | succ n ih =>
    exact byte_inside.bind (g := fun b => argBytes what n ((arg*256+b.toNat)%2^64)) fun b => ih _

theorem headOf_inside (b : UInt8) : Inside (headOf what b) := by
  refine (Inside.pure _).ite ?_
  cases argWidth (b &&& 0x1f).toNat with
  | some n => exact (argBytes_inside n 0).bind fun arg => Inside.pure _
  | none => exact (bad_inside _).ite (bad_inside _)

theorem head_inside : Inside (head what) := byte_inside.bind headOf_inside

theorem take_inside (n : Nat) : Inside (take what n) := by
  refine (bad_inside _).ite ?_
  intro c _
  refine ⟨Refuses.ok,fun b c' h => ?_⟩
  rw [← (Prod.mk.inj (Except.ok.inj h)).2]
  exact ⟨rfl,rfl⟩

theorem taken_inside (n : Nat) : Inside (taken what n) := by
  intro c hc
  rw [taken,take]
  by_cases hlen : n > c.left
  · rw [if_pos hlen]
    exact bad_inside (β := Octets) _ c hc
  · rw [if_neg hlen]
    have hcopy : (Cursor.copy c.mem c.pos n : Result Octets)=.ok (c.rest.take n) :=
      hc.copy (not_lt.mp hlen)
    change Refuses _ ((Cursor.copy c.mem c.pos n : Result Octets) >>= fun v => .ok (v,c.advance n)) ∧
      ∀ b c',((Cursor.copy c.mem c.pos n : Result Octets) >>= fun v => .ok (v,c.advance n))=_ → _
    rw [hcopy]
    refine ⟨Refuses.ok,fun b c' h => ?_⟩
    rw [← (Prod.mk.inj (Except.ok.inj h)).2]
    exact ⟨rfl,rfl⟩

theorem skipBody_inside {inner : Reader → Result (Unit × Reader)} (hinner : Inside inner)
    (head : Nat × Nat) : Inside (skipBody what inner head) := by
  refine (Inside.pure ()).ite ((take_inside _).ite (Inside.ite ?_ (Inside.ite ?_
    (hinner.ite (Inside.pure ())))))
  · exact (bad_inside _).ite (Inside.loop (fun _ => hinner) _ ())
  · exact (bad_inside _).ite (Inside.loop (fun _ => hinner.bind fun _ => hinner) _ ())

theorem skipLevels_inside (level : Nat) : Inside (skipLevels what level) := by
  induction level with
  | zero => exact bad_inside _
  | succ level ih => exact head_inside.bind (skipBody_inside ih)

theorem skip_inside (depth : Nat) : Inside (skip what depth) := skipLevels_inside _

theorem text_inside : Inside (text what) :=
  head_inside.bind fun _ => (bad_inside _).ite (taken_inside _)

theorem bytes_inside : Inside (bytes what) :=
  head_inside.bind fun _ => (bad_inside _).ite (taken_inside _)

theorem integer_inside : Inside (integer what) :=
  head_inside.bind fun _ => (bad_inside _).ite ((bad_inside _).ite (Inside.pure _))

theorem mapCount_inside : Inside (mapCount what) :=
  head_inside.bind fun _ => (bad_inside _).ite ((bad_inside _).ite (Inside.pure _))

theorem arrayCount_inside : Inside (arrayCount what) :=
  head_inside.bind fun _ => (bad_inside _).ite ((bad_inside _).ite (Inside.pure _))

theorem key_inside : Inside (key what) :=
  peekMajor_inside.bind fun _ =>
    text_inside.ite ((skip_inside 1).bind (g := fun _ c => .ok ([],c)) fun _ => Inside.pure [])

end Inside

end FastPki.Cbor
