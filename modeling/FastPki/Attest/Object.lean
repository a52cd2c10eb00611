import FastPki.Webauthn.AuthData

namespace FastPki.Attest
open X509 Cbor

structure AttestationObject where
  fmt : Octets
  x5c : List Octets
  deriving DecidableEq

/-- What the members of the object have given so far. -/
structure Gathered where
  fmt : Option Octets
  haveStmt : Bool
  x5c : List Octets

section Code

def objectWhat : String := "attestation object"

def pushCert (x5c : List Octets) (c : Reader) : Result (List Octets × Reader) :=
  bytes objectWhat c >>= fun (v,c) => .ok (x5c++[v],c)

def x5cArray (x5c : List Octets) (certs : Nat) (c : Reader) : Result (List Octets × Reader) :=
  if certs = 0 ∨ certs > 8 then bad objectWhat "x5c must hold 1 to 8 certificates"
  else scanLoop pushCert certs x5c c

def stmtMemberOf (x5c : List Octets) (k : Octets) (c : Reader) : Result (List Octets × Reader) :=
  if k = octets "x5c" then arrayCount objectWhat c >>= fun (certs,c) => x5cArray x5c certs c
  else skip objectWhat 2 c >>= fun (_,c) => .ok (x5c,c)

/-- One member of `attStmt`. -/
def stmtMember (x5c : List Octets) (c : Reader) : Result (List Octets × Reader) :=
  key objectWhat c >>= fun (k,c) => stmtMemberOf x5c k c

def attStmt (s : Gathered) (m : Nat) (c : Reader) : Result (Gathered × Reader) :=
  scanLoop stmtMember m s.x5c c >>= fun (x5c,c) =>
    .ok ({ s with haveStmt := true,x5c := x5c },c)

def memberOf (s : Gathered) (k : Octets) (c : Reader) : Result (Gathered × Reader) :=
  if k = octets "fmt" then text objectWhat c >>= fun (t,c) => .ok ({ s with fmt := some t },c)
  else if k = octets "attStmt" then mapCount objectWhat c >>= fun (m,c) => attStmt s m c
  else skip objectWhat 1 c >>= fun (_,c) => .ok (s,c)

/-- One member of the object. -/
def member (s : Gathered) (c : Reader) : Result (Gathered × Reader) :=
  key objectWhat c >>= fun (k,c) => memberOf s k c

def members (c : Reader) : Result (Gathered × Reader) :=
  mapCount objectWhat c >>= fun (n,c) => scanLoop member n ⟨none,false,[]⟩ c

def complete (s : Gathered) : Result AttestationObject :=
  match s.fmt with
  | none => bad objectWhat "no fmt"
  | some fmt =>
    if !s.haveStmt || s.x5c.isEmpty then bad objectWhat "no attStmt.x5c" else .ok ⟨fmt,s.x5c⟩

def parseAttestationObject (data : Octets) : Result AttestationObject :=
  members (.whole data 0) >>= fun (s,c) =>
    if c.pos ≠ c.stop then bad objectWhat "trailing bytes after the object" else complete s

end Code

section Grammar

/-- A member of `attStmt`: certificates, or something else. -/
inductive StmtMember where
  | x5c (certs : List Octets)
  | other
  deriving DecidableEq

inductive Member where
  | fmt (t : Octets)
  | attStmt (members : List StmtMember)
  | other
  deriving DecidableEq

def StmtMember.Encoded : StmtMember → Octets → Prop
  | .x5c certs,z => ∃ k h xs,KeyItem (octets "x5c") k ∧ IsHead (4,certs.length) h ∧
      (1 ≤ certs.length ∧ certs.length ≤ 8) ∧ List.Forall₂ BytesItem certs xs ∧
      z=k++(h++xs.flatten)
  | .other,z => ∃ name k x,KeyItem name k ∧ name≠octets "x5c" ∧ Item (kMaxDepth-1) x ∧ z=k++x

def Member.Encoded : Member → Octets → Prop
  | .fmt t,z => ∃ k x,KeyItem (octets "fmt") k ∧ TextItem t x ∧ z=k++x
  | .attStmt ms,z => ∃ k h xs,KeyItem (octets "attStmt") k ∧ IsHead (5,ms.length) h ∧
      List.Forall₂ StmtMember.Encoded ms xs ∧ z=k++(h++xs.flatten)
  | .other,z => ∃ name k x,KeyItem name k ∧ name≠octets "fmt" ∧ name≠octets "attStmt" ∧
      Item kMaxDepth x ∧ z=k++x

/-- The octets are a map of these members. -/
def Encodes (data : Octets) (ms : List Member) : Prop :=
  ∃ h xs,IsHead (5,ms.length) h ∧ List.Forall₂ Member.Encoded ms xs ∧ data=h++xs.flatten

def StmtMember.certs : StmtMember → List Octets
  | .x5c certs => certs
  | .other => []

def Member.certs : Member → List Octets
  | .attStmt ms => ms.flatMap StmtMember.certs
  | _ => []

def StmtMember.isX5c : StmtMember → Bool
  | .x5c _ => true
  | .other => false

def Member.isAttStmt : Member → Bool
  | .attStmt _ => true
  | _ => false

/-- Nothing is missing: there is a `fmt`, and there are certificates. -/
def Complete (ms : List Member) : Prop := (∃ t,Member.fmt t∈ms) ∧ ms.flatMap Member.certs≠[]

/-- The key of the statement is there twice, or that of the certificates in one statement. -/
def Repeats (ms : List Member) : Prop :=
  2 ≤ ms.countP Member.isAttStmt ∨ ∃ ss,Member.attStmt ss∈ms ∧ 2 ≤ ss.countP StmtMember.isX5c

end Grammar

section Parses

theorem pushCert_parses (x5c : List Octets) : Parses (pushCert x5c) fun t x =>
    ∃ v,BytesItem v x ∧ t=x5c++[v] := by
  refine (bytes_parses.bind (g := fun v c => .ok (x5c++[v],c)) fun v =>
    Parses.pure (x5c++[v])).congr fun t z => ?_
  constructor
  · rintro ⟨v,x,y,hx,⟨rfl,rfl⟩,rfl⟩
    exact ⟨v,by rwa [List.append_nil],rfl⟩
  · rintro ⟨v,hx,rfl⟩
    exact ⟨v,z,[],hx,⟨rfl,rfl⟩,by simp⟩

theorem foldl_push (certs out : List Octets) :
    certs.foldl (fun out v => out++[v]) out=out++certs := by
  induction certs generalizing out with
  | nil => simp
  | cons v certs ih => simp [ih]

theorem x5cArray_parses (x5c : List Octets) (n : Nat) : Parses (x5cArray x5c n) fun t y =>
    (1 ≤ n ∧ n ≤ 8) ∧ ∃ certs xs,certs.length=n ∧ List.Forall₂ BytesItem certs xs ∧
      t=x5c++certs ∧ y=xs.flatten := by
  by_cases hn : n=0 ∨ n>8
  · have hcode : x5cArray x5c n=
        fun _ => .error (.thrown ⟨1,objectWhat++": "++"x5c must hold 1 to 8 certificates"⟩) := by
      funext c
      rw [x5cArray,if_pos hn]
      rfl
    rw [hcode]
    exact (Parses.refused _).congr fun t y => iff_of_false id fun h => by omega
  · have hcode : x5cArray x5c n=scanLoop pushCert n x5c := by
      funext c
      rw [x5cArray,if_neg hn]
    rw [hcode]
    refine (Parses.loop pushCert_parses n x5c).congr fun t y => ?_
    rw [chain_fold_iff (E := BytesItem) (fun out v => out++[v]) fun s t x => Iff.rfl]
    simp only [foldl_push]
    exact (and_iff_right (by omega)).symm

/-- The room that a number of byte strings takes. -/
theorem length_le_of_forall₂ {μ : Type} {E : μ → Octets → Prop} {unit : Nat}
    (hE : ∀ m x,E m x → unit ≤ x.length) {ms : List μ} {xs : List Octets}
    (h : List.Forall₂ E ms xs) : ms.length*unit ≤ xs.flatten.length := by
  induction h with
  | nil => simp
  | cons hx _ ih =>
    rw [List.length_cons,List.flatten_cons,List.length_append,Nat.succ_mul,Nat.add_comm]
    exact Nat.add_le_add (hE _ _ hx) ih

theorem BytesItem.length_pos {v x : Octets} (h : BytesItem v x) : 1 ≤ x.length := by
  obtain ⟨hd,hh,rfl⟩ := h
  exact hh.length_pos.trans (by simp)

def StmtMember.add (x5c : List Octets) (m : StmtMember) : List Octets := x5c++m.certs

/-- An item that is passed over. -/
theorem skipped_parses {σ : Type} (what : String) (depth : Nat) (s : σ) :
    Parses (fun c => skip what depth c >>= fun (_,c) => (.ok (s,c) : Result (σ × Reader)))
      fun t x => t=s ∧ Item (kMaxDepth+1-depth) x := by
  refine ((skip_parses depth).bind (g := fun _ c => .ok (s,c)) fun _ => Parses.pure s).congr
    fun t z => ?_
  constructor
  · rintro ⟨_,x,y,hx,⟨rfl,rfl⟩,rfl⟩
    exact ⟨rfl,by rwa [List.append_nil]⟩
  · rintro ⟨rfl,hx⟩
    exact ⟨(),z,[],hx,⟨rfl,rfl⟩,by simp⟩

theorem stmtMemberOf_parses (x5c : List Octets) (k : Octets) : Parses (stmtMemberOf x5c k)
    fun t y => if k = octets "x5c" then ∃ certs h xs,IsHead (4,certs.length) h ∧
      (1 ≤ certs.length ∧ certs.length ≤ 8) ∧ List.Forall₂ BytesItem certs xs ∧ t=x5c++certs ∧
        y=h++xs.flatten
    else t=x5c ∧ Item (kMaxDepth-1) y := by
  by_cases hk : k=octets "x5c"
  · have hcode : stmtMemberOf x5c k=
        fun c => arrayCount objectWhat c >>= fun (certs,c) => x5cArray x5c certs c := by
      funext c
      rw [stmtMemberOf,if_pos hk]
    rw [hcode]
    refine (count_parses 1 (by omega) (x5cArray_parses x5c) (fun n t y hy => ?_) 4 _
      _).congr fun t z => ?_
    · obtain ⟨_,certs,xs,rfl,hxs,_,rfl⟩ := hy
      exact length_le_of_forall₂ (fun _ _ => BytesItem.length_pos) hxs
    · rw [if_pos hk]
      constructor
      · rintro ⟨n,h,y,hh,⟨hn,certs,xs,rfl,hxs,rfl,rfl⟩,rfl⟩
        exact ⟨certs,h,xs,hh,hn,hxs,rfl,rfl⟩
      · rintro ⟨certs,h,xs,hh,hn,hxs,rfl,rfl⟩
        exact ⟨_,h,_,hh,⟨hn,certs,xs,rfl,hxs,rfl,rfl⟩,rfl⟩
  · have hcode : stmtMemberOf x5c k=fun c => skip objectWhat 2 c >>= fun (_,c) => .ok (x5c,c) := by
      funext c
      rw [stmtMemberOf,if_neg hk]
    rw [hcode]
    refine (skipped_parses objectWhat 2 x5c).congr fun t z => ?_
    rw [if_neg hk]
    rfl

theorem stmtMember_parses (x5c : List Octets) : Parses (stmtMember x5c) fun t z =>
    ∃ m : StmtMember,m.Encoded z ∧ t=m.add x5c := by
  refine (key_parses.bind (stmtMemberOf_parses x5c)).congr fun t z => ?_
  constructor
  · rintro ⟨name,k,y,hkey,hy,rfl⟩
    split_ifs at hy with hname
    · obtain ⟨certs,h,xs,hh,hn,hxs,rfl,rfl⟩ := hy
      exact ⟨.x5c certs,⟨k,h,xs,hname ▸ hkey,hh,hn,hxs,rfl⟩,rfl⟩
    · obtain ⟨rfl,hitem⟩ := hy
      exact ⟨.other,⟨name,k,y,hkey,hname,hitem,rfl⟩,by simp [StmtMember.add,StmtMember.certs]⟩
  · rintro ⟨m,hm,rfl⟩
    cases m with
    | x5c certs =>
      obtain ⟨k,h,xs,hkey,hh,hn,hxs,rfl⟩ := hm
      refine ⟨_,k,_,hkey,?_,rfl⟩
      rw [if_pos rfl]
      exact ⟨certs,h,xs,hh,hn,hxs,rfl,rfl⟩
    | other =>
      obtain ⟨name,k,x,hkey,hname,hitem,rfl⟩ := hm
      refine ⟨name,k,x,hkey,?_,rfl⟩
      rw [if_neg hname]
      exact ⟨by simp [StmtMember.add,StmtMember.certs],hitem⟩

theorem StmtMember.length_le {m : StmtMember} {z : Octets} (h : m.Encoded z) : 2 ≤ z.length := by
  cases m with
  | x5c certs =>
    obtain ⟨k,hd,xs,hkey,hh,_,_,rfl⟩ := h
    have hk := KeyItem.length_pos hkey
    have hhd := hh.length_pos
    simp only [List.length_append]
    omega
  | other =>
    obtain ⟨_,k,x,hkey,_,hitem,rfl⟩ := h
    have hk := KeyItem.length_pos hkey
    have hx := hitem.length_pos
    rw [List.length_append]
    omega

def Member.add (s : Gathered) : Member → Gathered
  | .fmt t => { s with fmt := some t }
  | .attStmt ms => { s with haveStmt := true,x5c := s.x5c++ms.flatMap StmtMember.certs }
  | .other => s

theorem foldl_stmtMember_add (ms : List StmtMember) (x5c : List Octets) :
    ms.foldl StmtMember.add x5c=x5c++ms.flatMap StmtMember.certs := by
  induction ms generalizing x5c with
  | nil => simp
  | cons m ms ih => rw [List.foldl_cons,ih,StmtMember.add,List.flatMap_cons,List.append_assoc]

theorem attStmt_parses (s : Gathered) (n : Nat) : Parses (attStmt s n) fun t y =>
    ∃ ms xs,ms.length=n ∧ List.Forall₂ StmtMember.Encoded ms xs ∧ t=(Member.attStmt ms).add s ∧
      y=xs.flatten := by
  refine ((Parses.loop stmtMember_parses n s.x5c).bind
    (g := fun x5c c => .ok ({ s with haveStmt := true,x5c := x5c },c)) fun x5c =>
      Parses.pure _).congr fun t z => ?_
  constructor
  · rintro ⟨x5c,x,y,hx,⟨rfl,rfl⟩,rfl⟩
    obtain ⟨ms,xs,hlen,hxs,rfl,rfl⟩ := (chain_fold_iff StmtMember.add fun s t x =>
      Iff.rfl).mp hx
    rw [List.append_nil,foldl_stmtMember_add]
    exact ⟨ms,xs,hlen,hxs,rfl,rfl⟩
  · rintro ⟨ms,xs,hlen,hxs,rfl,rfl⟩
    refine ⟨_,_,[],(chain_fold_iff StmtMember.add fun s t x => Iff.rfl).mpr
      ⟨ms,xs,hlen,hxs,rfl,rfl⟩,⟨?_,rfl⟩,by simp⟩
    rw [foldl_stmtMember_add]
    rfl

theorem memberOf_parses (s : Gathered) (k : Octets) : Parses (memberOf s k) fun t y =>
    if k = octets "fmt" then ∃ v,TextItem v y ∧ t=(Member.fmt v).add s
    else if k = octets "attStmt" then ∃ ms h xs,IsHead (5,ms.length) h ∧
      List.Forall₂ StmtMember.Encoded ms xs ∧ t=(Member.attStmt ms).add s ∧ y=h++xs.flatten
    else t=s ∧ Item kMaxDepth y := by
  by_cases hfmt : k=octets "fmt"
  · have hcode : memberOf s k=
        fun c => text objectWhat c >>= fun (t,c) => .ok ({ s with fmt := some t },c) := by
      funext c
      rw [memberOf,if_pos hfmt]
    rw [hcode]
    refine (text_parses.bind (g := fun t c => .ok ({ s with fmt := some t },c)) fun t =>
      Parses.pure _).congr fun t z => ?_
    rw [if_pos hfmt]
    constructor
    · rintro ⟨v,x,y,hx,⟨rfl,rfl⟩,rfl⟩
      exact ⟨v,by rwa [List.append_nil],rfl⟩
    · rintro ⟨v,hx,rfl⟩
      exact ⟨v,z,[],hx,⟨rfl,rfl⟩,by simp⟩
  by_cases hstmt : k=octets "attStmt"
  · have hcode : memberOf s k=
        fun c => mapCount objectWhat c >>= fun (m,c) => attStmt s m c := by
      funext c
      rw [memberOf,if_neg hfmt,if_pos hstmt]
    rw [hcode]
    refine (count_parses 2 (by omega) (attStmt_parses s) (fun n t y hy => ?_) 5 _
      _).congr fun t z => ?_
    · obtain ⟨ms,xs,rfl,hxs,_,rfl⟩ := hy
      exact length_le_of_forall₂ (fun _ _ => StmtMember.length_le) hxs
    · rw [if_neg hfmt,if_pos hstmt]
      constructor
      · rintro ⟨n,h,y,hh,⟨ms,xs,rfl,hxs,rfl,rfl⟩,rfl⟩
        exact ⟨ms,h,xs,hh,hxs,rfl,rfl⟩
      · rintro ⟨ms,h,xs,hh,hxs,rfl,rfl⟩
        exact ⟨_,h,_,hh,⟨ms,xs,rfl,hxs,rfl,rfl⟩,rfl⟩
  · have hcode : memberOf s k=fun c => skip objectWhat 1 c >>= fun (_,c) => .ok (s,c) := by
      funext c
      rw [memberOf,if_neg hfmt,if_neg hstmt]
    rw [hcode]
    refine (skipped_parses objectWhat 1 s).congr fun t z => ?_
    rw [if_neg hfmt,if_neg hstmt]
    rfl

theorem member_parses (s : Gathered) : Parses (member s) fun t z =>
    ∃ m : Member,m.Encoded z ∧ t=m.add s := by
  refine (key_parses.bind (memberOf_parses s)).congr fun t z => ?_
  constructor
  · rintro ⟨name,k,y,hkey,hy,rfl⟩
    split_ifs at hy with hfmt hstmt
    · obtain ⟨v,hv,rfl⟩ := hy
      exact ⟨.fmt v,⟨k,y,hfmt ▸ hkey,hv,rfl⟩,rfl⟩
    · obtain ⟨ms,h,xs,hh,hxs,rfl,rfl⟩ := hy
      exact ⟨.attStmt ms,⟨k,h,xs,hstmt ▸ hkey,hh,hxs,rfl⟩,rfl⟩
    · obtain ⟨rfl,hitem⟩ := hy
      exact ⟨.other,⟨name,k,y,hkey,hfmt,hstmt,hitem,rfl⟩,rfl⟩
  · rintro ⟨m,hm,rfl⟩
    cases m with
    | fmt v =>
      obtain ⟨k,x,hkey,hx,rfl⟩ := hm
      refine ⟨_,k,x,hkey,?_,rfl⟩
      rw [if_pos rfl]
      exact ⟨v,hx,rfl⟩
    | attStmt ms =>
      obtain ⟨k,h,xs,hkey,hh,hxs,rfl⟩ := hm
      refine ⟨_,k,_,hkey,?_,rfl⟩
      rw [if_neg (by decide),if_pos rfl]
      exact ⟨ms,h,xs,hh,hxs,rfl,rfl⟩
    | other =>
      obtain ⟨name,k,x,hkey,hfmt,hstmt,hitem,rfl⟩ := hm
      refine ⟨name,k,x,hkey,?_,rfl⟩
      rw [if_neg hfmt,if_neg hstmt]
      exact ⟨rfl,hitem⟩

theorem Member.length_le {m : Member} {z : Octets} (h : m.Encoded z) : 2 ≤ z.length := by
  cases m with
  | fmt v =>
    obtain ⟨k,x,hkey,⟨hd,hh,rfl⟩,rfl⟩ := h
    have hk := KeyItem.length_pos hkey
    have hhd := hh.length_pos
    simp only [List.length_append]
    omega
  | attStmt ms =>
    obtain ⟨k,hd,xs,hkey,hh,_,rfl⟩ := h
    have hk := KeyItem.length_pos hkey
    have hhd := hh.length_pos
    simp only [List.length_append]
    omega
  | other =>
    obtain ⟨_,k,x,hkey,_,_,hitem,rfl⟩ := h
    have hk := KeyItem.length_pos hkey
    have hx := hitem.length_pos
    rw [List.length_append]
    omega

theorem members_parses : Parses members fun t z =>
    ∃ ms,Encodes z ms ∧ t=ms.foldl Member.add ⟨none,false,[]⟩ := by
  refine (count_parses 2 (by omega)
    (fun n => Parses.loop member_parses n ⟨none,false,[]⟩) (fun n t y hy => ?_) 5 _ _).congr
      fun t z => ?_
  · exact hy.length_le fun s t x ⟨m,hm,_⟩ => Member.length_le hm
  · constructor
    · rintro ⟨n,h,y,hh,hy,rfl⟩
      obtain ⟨ms,xs,rfl,hxs,rfl,rfl⟩ := (chain_fold_iff Member.add fun s t x =>
        Iff.rfl).mp hy
      exact ⟨ms,⟨h,xs,hh,hxs,rfl⟩,rfl⟩
    · rintro ⟨ms,⟨h,xs,hh,hxs,rfl⟩,rfl⟩
      exact ⟨_,h,_,hh,(chain_fold_iff Member.add fun s t x => Iff.rfl).mpr
        ⟨ms,xs,rfl,hxs,rfl,rfl⟩,rfl⟩

theorem foldl_add_x5c (ms : List Member) (s : Gathered) :
    (ms.foldl Member.add s).x5c=s.x5c++ms.flatMap Member.certs := by
  induction ms generalizing s with
  | nil => simp
  | cons m ms ih =>
    rw [List.foldl_cons,ih,List.flatMap_cons,← List.append_assoc]
    cases m with
    | fmt t => simp [Member.add,Member.certs]
    | attStmt ss => rfl
    | other => simp [Member.add,Member.certs]

theorem foldl_add_haveStmt (ms : List Member) (s : Gathered) :
    (ms.foldl Member.add s).haveStmt=(s.haveStmt || ms.any Member.isAttStmt) := by
  induction ms generalizing s with
  | nil => simp
  | cons m ms ih =>
    rw [List.foldl_cons,ih,List.any_cons]
    cases m with
    | fmt t => simp [Member.add,Member.isAttStmt]
    | attStmt ss => simp [Member.add,Member.isAttStmt]
    | other => simp [Member.add,Member.isAttStmt]

theorem foldl_add_fmt (ms : List Member) (s : Gathered) :
    (ms.foldl Member.add s).fmt.isSome=true ↔ s.fmt.isSome=true ∨ ∃ t,Member.fmt t∈ms := by
  induction ms generalizing s with
  | nil => simp
  | cons m ms ih =>
    rw [List.foldl_cons,ih]
    cases m with
    | fmt t => simp [Member.add]
    | attStmt ss => simp [Member.add]
    | other => simp [Member.add]

theorem complete_eq_ok_iff {s : Gathered} {out : AttestationObject} : complete s=.ok out ↔
    s.fmt=some out.fmt ∧ s.haveStmt=true ∧ s.x5c=out.x5c ∧ out.x5c≠[] := by
  rw [complete]
  cases hfmt : s.fmt with
  | none => simp [bad]
  | some fmt =>
    by_cases hbad : (!s.haveStmt || s.x5c.isEmpty)=true
    · simp only [if_pos hbad]
      constructor
      · intro h
        cases h
      · rintro ⟨_,hstmt,hx,hne⟩
        rw [Bool.or_eq_true,hstmt,List.isEmpty_iff,hx] at hbad
        exact absurd hbad (by simp [hne])
    · simp only [if_neg hbad]
      rw [Bool.or_eq_true,not_or,List.isEmpty_iff] at hbad
      constructor
      · intro h
        obtain rfl := Except.ok.inj h
        exact ⟨rfl,by simpa using hbad.1,rfl,hbad.2⟩
      · rintro ⟨hf,_,hx,_⟩
        rw [Option.some.inj hf,hx]

/-- The parser accepts the maps from which nothing is missing, and gathers all their certificates. -/
theorem parse_eq_ok_iff {data : Octets} {out : AttestationObject} :
    parseAttestationObject data=.ok out ↔ ∃ ms,Encodes data ms ∧
      (ms.foldl Member.add ⟨none,false,[]⟩).fmt=some out.fmt ∧
      out.x5c=ms.flatMap Member.certs ∧ out.x5c≠[] := by
  have hstmt : ∀ ms : List Member,ms.flatMap Member.certs≠[] → ms.any Member.isAttStmt=true := by
    intro ms hne
    obtain ⟨v,hv⟩ := List.exists_mem_of_ne_nil _ hne
    obtain ⟨m,hm,hvm⟩ := List.mem_flatMap.mp hv
    refine List.any_eq_true.mpr ⟨m,hm,?_⟩
    cases m with
    | attStmt ss => rfl
    | fmt t => cases hvm
    | other => cases hvm
  rw [parseAttestationObject,bind_eq_ok_iff]
  constructor
  · rintro ⟨⟨s,c⟩,hmembers,hrest⟩
    obtain ⟨x,⟨ms,hms,rfl⟩,hpre,rfl⟩ :=
      (members_parses _ (Cursor.whole_fits data 0) s c).mp hmembers
    dsimp only at hrest
    split_ifs at hrest with hend
    · cases hrest
    · rw [Cursor.whole_rest,List.drop_zero] at hpre
      have hx : x=data := hpre.eq_of_length (by simpa [Cursor.whole] using hend)
      obtain ⟨hfmt,_,hx5c,hne⟩ := complete_eq_ok_iff.mp hrest
      rw [foldl_add_x5c,List.nil_append] at hx5c
      exact ⟨ms,hx ▸ hms,hfmt,hx5c.symm,hne⟩
  · rintro ⟨ms,hms,hfmt,hx5c,hne⟩
    refine ⟨(_,(Cursor.whole data 0).advance data.length),
      (members_parses _ (Cursor.whole_fits data 0) _ _).mpr ⟨data,⟨ms,hms,rfl⟩,by simp,rfl⟩,?_⟩
    dsimp only
    rw [if_neg (by simp [Cursor.whole]),complete_eq_ok_iff]
    refine ⟨hfmt,?_,?_,hne⟩
    · rw [foldl_add_haveStmt,hstmt ms (hx5c ▸ hne)]
      rfl
    · rw [foldl_add_x5c,hx5c]
      rfl

/-- Where what counts stands there once, it is all there is. -/
theorem flatMap_of_count_le_one {μ ν : Type} {l : List μ} {p : μ → Bool} {f : μ → List ν}
    (hf : ∀ m,p m=false → f m=[]) (hcount : ¬2 ≤ l.countP p) (hne : l.flatMap f≠[]) :
    ∃ m∈l,p m=true ∧ l.flatMap f=f m := by
  induction l with
  | nil => exact absurd rfl hne
  | cons a l ih =>
    rw [List.flatMap_cons] at hne ⊢
    by_cases ha : p a=true
    · rw [List.countP_cons_of_pos ha] at hcount
      have hzero : ∀ m∈l,p m=false := by
        have h0 : l.countP p=0 := by omega
        intro m hm
        simpa using List.countP_eq_zero.mp h0 m hm
      have hrest : l.flatMap f=[] :=
        List.flatMap_eq_nil_iff.mpr fun m hm => hf m (hzero m hm)
      exact ⟨a,List.mem_cons_self,ha,by rw [hrest,List.append_nil]⟩
    · rw [Bool.not_eq_true] at ha
      rw [List.countP_cons_of_neg (by simp [ha])] at hcount
      rw [hf a ha,List.nil_append] at hne ⊢
      obtain ⟨m,hm,hp,heq⟩ := ih hcount hne
      exact ⟨m,List.mem_cons_of_mem _ hm,hp,heq⟩

end Parses

/-- An accepted object holds 1 to 8 certificates, those of one array of one statement, and an object
that repeats one of the two keys is refused. -/
def BoundedChain (data : Octets) : Prop :=
  (∀ out,parseAttestationObject data=.ok out → (1 ≤ out.x5c.length ∧ out.x5c.length ≤ 8) ∧
    ∃ ms ss,Encodes data ms ∧ Member.attStmt ss∈ms ∧ StmtMember.x5c out.x5c∈ss) ∧
  ∀ ms,Encodes data ms → Repeats ms → ∀ out,parseAttestationObject data≠.ok out

theorem exists_of_mem_forall₂ {μ ν : Type} {E : μ → ν → Prop} {ms : List μ} {xs : List ν}
    (h : List.Forall₂ E ms xs) {m : μ} (hm : m∈ms) : ∃ x∈xs,E m x := by
  induction h with
  | nil => cases hm
  | cons hx _ ih =>
    rcases List.mem_cons.mp hm with rfl|hm
    · exact ⟨_,List.mem_cons_self,hx⟩
    · obtain ⟨x,hmem,hE⟩ := ih hm
      exact ⟨x,List.mem_cons_of_mem _ hmem,hE⟩

/-- The elements of an array in a map that the octets encode are 1 to 8. -/
theorem Encodes.certs_length {data : Octets} {ms : List Member} (h : Encodes data ms)
    {ss : List StmtMember} (hss : Member.attStmt ss∈ms) {certs : List Octets}
    (hcerts : StmtMember.x5c certs∈ss) : 1 ≤ certs.length ∧ certs.length ≤ 8 := by
  obtain ⟨_,xs,_,hxs,_⟩ := h
  obtain ⟨z,_,k,hd,ys,_,_,hys,_⟩ := exists_of_mem_forall₂ hxs hss
  obtain ⟨y,_,_,_,_,_,_,hlen,_⟩ := exists_of_mem_forall₂ hys hcerts
  exact hlen

/-- All readings of the octets as a map gather the same. -/
theorem Encodes.gathered_eq {data : Octets} {ms ms' : List Member} (h : Encodes data ms)
    (h' : Encodes data ms') :
    ms.foldl Member.add ⟨none,false,[]⟩=ms'.foldl Member.add ⟨none,false,[]⟩ := by
  have hread : ∀ ms,Encodes data ms → members (.whole data 0)=
      .ok (ms.foldl Member.add ⟨none,false,[]⟩,(Cursor.whole data 0).advance data.length) :=
    fun ms hms => (members_parses _ (Cursor.whole_fits data 0) _ _).mpr
      ⟨data,⟨ms,hms,rfl⟩,by simp,rfl⟩
  exact (Prod.mk.inj (Except.ok.inj ((hread ms h).symm.trans (hread ms' h')))).1

/-- From no reading of an accepted object anything is missing. -/
theorem complete_of_parse {data : Octets} {ms : List Member} (h : Encodes data ms)
    {out : AttestationObject} (hout : parseAttestationObject data=.ok out) :
    Complete ms ∧ out.x5c=ms.flatMap Member.certs := by
  obtain ⟨ms',hms',hfmt,hx5c,hne⟩ := parse_eq_ok_iff.mp hout
  have hsame := h.gathered_eq hms'
  have hcerts : ms.flatMap Member.certs=ms'.flatMap Member.certs := by
    have hfold := congrArg Gathered.x5c hsame
    rwa [foldl_add_x5c,foldl_add_x5c,List.nil_append] at hfold
  rw [← hsame] at hfmt
  refine ⟨⟨?_,by rwa [hcerts,← hx5c]⟩,by rw [hx5c,hcerts]⟩
  have hsome := (foldl_add_fmt ms ⟨none,false,[]⟩).mp (by rw [hfmt]; rfl)
  simpa using hsome

/-- The chain is bounded exactly where no key is repeated in an object from which nothing is
missing. -/
theorem chain_bounded_iff_no_repeat (data : Octets) : BoundedChain data ↔
    ∀ ms,Encodes data ms → Complete ms → ¬Repeats ms := by
  constructor
  · rintro ⟨_,hrefuse⟩ ms hms ⟨hfmt,hne⟩ hrep
    obtain ⟨t,ht⟩ := Option.isSome_iff_exists.mp
      ((foldl_add_fmt ms ⟨none,false,[]⟩).mpr (Or.inr hfmt))
    exact hrefuse ms hms hrep ⟨t,ms.flatMap Member.certs⟩
      (parse_eq_ok_iff.mpr ⟨ms,hms,ht,rfl,hne⟩)
  · intro h
    refine ⟨fun out hout => ?_,fun ms hms hrep out hout => ?_⟩
    · obtain ⟨ms,hms,_⟩ := parse_eq_ok_iff.mp hout
      obtain ⟨hcomplete,hx5c⟩ := complete_of_parse hms hout
      have honce := h ms hms hcomplete
      rw [Repeats,not_or] at honce
      obtain ⟨m,hm,hstmt,hcerts⟩ := flatMap_of_count_le_one (f := Member.certs)
        (fun m hm => by cases m <;> first | rfl | cases hm) honce.1 hcomplete.2
      cases m with
      | fmt t => cases hstmt
      | other => cases hstmt
      | attStmt ss =>
        have hss : ¬2 ≤ ss.countP StmtMember.isX5c := fun h2 => honce.2 ⟨ss,hm,h2⟩
        obtain ⟨sm,hsm,hx,heq⟩ := flatMap_of_count_le_one (f := StmtMember.certs)
          (fun m hm => by cases m <;> first | rfl | cases hm) hss fun h0 =>
            hcomplete.2 (hcerts.trans h0)
        cases sm with
        | other => cases hx
        | x5c certs =>
          have hout' : out.x5c=certs := hx5c.trans (hcerts.trans heq)
          rw [hout']
          exact ⟨hms.certs_length hm hsm,ms,ss,hms,hm,hsm⟩
    · exact h ms hms (complete_of_parse hms hout).1 hrep

/-- An array of eight empty certificates behind its key. -/
def eightCerts : Octets := 0x63::octets "x5c"++0x88::List.replicate 8 0x40

/-- A statement with the key of the certificates twice. -/
def sixteenCerts : Octets :=
  [0xa2]++(0x63::octets "fmt"++0x65::octets "apple")++
    (0x67::octets "attStmt"++0xa2::(eightCerts++eightCerts))

theorem sixteen_certs_accepted : ¬BoundedChain sixteenCerts := by
  intro h
  have hparse : parseAttestationObject sixteenCerts=
      .ok ⟨octets "apple",List.replicate 16 []⟩ := by decide +kernel
  have hle := (h.1 _ hparse).1.2
  exact absurd hle (by decide)

section Inside

theorem x5cArray_inside (x5c : List Octets) (certs : Nat) : Inside (x5cArray x5c certs) :=
  (bad_inside _).ite (Inside.loop (fun out => Webauthn.bytes_field_inside objectWhat fun v =>
    out++[v]) certs x5c)

theorem stmtMember_inside (x5c : List Octets) : Inside (stmtMember x5c) := by
  refine key_inside.bind fun k => Inside.ite ?_ ?_
  · exact arrayCount_inside.bind (x5cArray_inside x5c)
  · exact (skip_inside 2).bind (g := fun _ c => .ok (x5c,c)) fun _ => Inside.pure x5c

theorem attStmt_inside (s : Gathered) (m : Nat) : Inside (attStmt s m) := by
  have hset : ∀ x5c,Inside fun c : Reader =>
      (.ok ({ s with haveStmt := true,x5c := x5c },c) : Result (Gathered × Reader)) :=
    fun _ => Inside.pure _
  exact (Inside.loop stmtMember_inside m s.x5c).bind hset

theorem member_inside (s : Gathered) : Inside (member s) := by
  refine key_inside.bind fun k => Inside.ite ?_ (Inside.ite ?_ ?_)
  · exact text_inside.bind (g := fun t c => .ok ({ s with fmt := some t },c)) fun _ =>
      Inside.pure _
  · exact mapCount_inside.bind (attStmt_inside s)
  · exact Webauthn.skip_pure_inside objectWhat s

theorem members_inside : Inside members :=
  mapCount_inside.bind fun n => Inside.loop member_inside n _

theorem complete_refuses (s : Gathered) : Refuses (fun e => ∃ t,e=Halt.thrown t) (complete s) := by
  rw [complete]
  split
  · exact fun e h => ⟨_,(Except.error.inj h).symm⟩
  · split_ifs
    · exact fun e h => ⟨_,(Except.error.inj h).symm⟩
    · exact Refuses.ok

theorem parseAttestationObject_refuses (data : Octets) :
    Refuses (fun e => ∃ t,e=Halt.thrown t) (parseAttestationObject data) := by
  refine Refuses.bind (members_inside _ (Cursor.whole_fits data 0)).1 fun p => ?_
  dsimp only
  split_ifs
  · exact fun e h => ⟨_,(Except.error.inj h).symm⟩
  · exact complete_refuses p.1

theorem ne_outside {β : Type} {x : Result β} (h : Refuses (fun e => ∃ t,e=Halt.thrown t) x)
    (i : Nat) : x≠.error (.outside i) := by
  intro hx
  obtain ⟨t,ht⟩ := h _ hx
  cases ht

end Inside

/-- Skipping is exact, and neither it nor the parsers over it read outside their octets. -/
theorem cbor_skip_exact_inside (spkiOf : Webauthn.KeyParams → Except Error Octets) :
    (∀ (buf : Octets) (offset depth : Nat) (what : String) (c : Reader),
      skip what depth (.whole buf offset)=.ok ((),c) ↔
        ∃ x,Item (kMaxDepth+1-depth) x ∧ x<+:buf.drop offset ∧ c=.whole buf (offset+x.length)) ∧
    (∀ (buf : Octets) (offset depth : Nat) (what : String) (i : Nat),
      skip what depth (.whole buf offset)≠.error (.outside i)) ∧
    (∀ (data : Octets) (wantCredential : Bool) (i : Nat),
      Webauthn.parseAuthData spkiOf data wantCredential≠.error (.outside i)) ∧
    ∀ (data : Octets) (i : Nat),parseAttestationObject data≠.error (.outside i) := by
  refine ⟨fun buf offset depth what c => ?_,fun buf offset depth what => ?_,
    fun data want => ?_,fun data => ?_⟩
  · have hparses : Parses (skip what depth) fun _ x => Item (kMaxDepth+1-depth) x :=
      skip_parses depth
    have hskip := hparses (.whole buf offset) (Cursor.whole_fits buf offset) () c
    rwa [Cursor.whole_rest] at hskip
  · exact ne_outside (skip_inside depth _ (Cursor.whole_fits buf offset)).1
  · exact ne_outside (Webauthn.parseAuthData_refuses data want)
  · exact ne_outside (parseAttestationObject_refuses data)

end FastPki.Attest
