import FastPki.Cbor.Reader

namespace FastPki.Webauthn
open X509 Cbor

def kES256 : Int := -7
def kEdDSA : Int := -8
def kRS256 : Int := -257

def kAttested : UInt8 := 0x40
def kExtensions : UInt8 := 0x80

/-- What OpenSSL makes a public key from. -/
inductive KeyParams where
  | ec (point : Octets)
  | ed25519 (x : Octets)
  | rsa (n e : Octets)

structure AuthData where
  rpIdHash : Octets
  flags : UInt8
  signCount : Nat
  credentialId : Octets
  spki : Octets
  alg : Int

/-- What the members of a COSE key have given so far. The labels -1 to -3 are read by `kty`
afterwards. -/
structure CoseFields where
  kty : Option Int
  alg : Option Int
  m1Bytes : Octets
  m1Int : Option Int
  m2Bytes : Octets
  m3Bytes : Octets

def bad {β : Type} (why : String) : Result β := .error (.thrown ⟨1,"passkey: "++why⟩)

section Code

variable (spkiOf : KeyParams → Except Error Octets)

def keyWhat : String := "passkey public key"

def dataWhat : String := "authenticator data"

def coseM1 (s : CoseFields) (major : Nat) (c : Reader) : Result (CoseFields × Reader) :=
  if major = 2 then bytes keyWhat c >>= fun (v,c) => .ok ({ s with m1Bytes := v },c)
  else integer keyWhat c >>= fun (v,c) => .ok ({ s with m1Int := some v },c)

def coseLabel (s : CoseFields) (label : Int) (c : Reader) : Result (CoseFields × Reader) :=
  if label = 1 then integer keyWhat c >>= fun (v,c) => .ok ({ s with kty := some v },c)
  else if label = 3 then integer keyWhat c >>= fun (v,c) => .ok ({ s with alg := some v },c)
  else if label = -1 then peekMajor keyWhat c >>= fun (major,c) => coseM1 s major c
  else if label = -2 then bytes keyWhat c >>= fun (v,c) => .ok ({ s with m2Bytes := v },c)
  else if label = -3 then bytes keyWhat c >>= fun (v,c) => .ok ({ s with m3Bytes := v },c)
  else skip keyWhat 1 c >>= fun (_,c) => .ok (s,c)

/-- A member whose label is no integer is skipped. -/
def coseMemberOf (s : CoseFields) (major : Nat) (c : Reader) : Result (CoseFields × Reader) :=
  if major ≠ 0 ∧ major ≠ 1 then
    skip keyWhat 1 c >>= fun (_,c) => skip keyWhat 1 c >>= fun (_,c) => .ok (s,c)
  else integer keyWhat c >>= fun (label,c) => coseLabel s label c

def coseMember (s : CoseFields) (c : Reader) : Result (CoseFields × Reader) :=
  peekMajor keyWhat c >>= fun (major,c) => coseMemberOf s major c

def spki (params : KeyParams) (alg : Int) : Result (Octets × Int) :=
  match spkiOf params with
  | .ok der => .ok (der,alg)
  | .error e => .error (.thrown e)

/-- The key of these members, by its type: 2 is EC2, 1 is OKP and 3 is RSA. -/
def coseKey (s : CoseFields) : Result (Octets × Int) :=
  match s.kty,s.alg with
  | some kty,some a =>
    if kty = 2 then
      if a ≠ kES256 ∨ s.m1Int ≠ some 1 then bad "an EC key must be P-256 with ES256"
      else if s.m2Bytes.length ≠ 32 ∨ s.m3Bytes.length ≠ 32 then
        bad "an EC P-256 point needs 32-byte x and y"
      else spki spkiOf (.ec (0x04::s.m2Bytes++s.m3Bytes)) kES256
    else if kty = 1 then
      if a ≠ kEdDSA ∨ s.m1Int ≠ some 6 then bad "an OKP key must be Ed25519 with EdDSA"
      else if s.m2Bytes.length ≠ 32 then bad "an Ed25519 key is 32 bytes"
      else spki spkiOf (.ed25519 s.m2Bytes) kEdDSA
    else if kty = 3 then
      if a ≠ kRS256 ∨ s.m1Int.isSome then bad "an RSA key must be used with RS256"
      else if s.m1Bytes.length < 256 ∨ s.m1Bytes.length > 1024 ∨ s.m2Bytes = [] ∨
          s.m2Bytes.length > 8 then bad "an RSA key must be 2048 to 8192 bits"
      else spki spkiOf (.rsa s.m1Bytes s.m2Bytes) kRS256
    else bad ("key type "++toString kty++" is not supported")
  | _,_ => Cbor.bad keyWhat "the key has no kty or alg"

def coseMembers (count : Nat) (c : Reader) : Result (CoseFields × Reader) :=
  if count > 16 then Cbor.bad keyWhat "too many members"
  else scanLoop coseMember count ⟨none,none,[],none,[],[]⟩ c

def coseFields (c : Reader) : Result (CoseFields × Reader) :=
  mapCount keyWhat c >>= fun (count,c) => coseMembers count c

/-- The key that stands in these `len` octets, and its algorithm. -/
def coseKeyToSpki (mem : Octets) (start len : Nat) : Result (Octets × Int) :=
  coseFields ⟨mem,start,start+len⟩ >>= fun (s,c) => coseKey spkiOf s >>= fun key =>
    if c.pos ≠ c.stop then Cbor.bad keyWhat "trailing bytes" else .ok key

/-- The COSE key is read from the octets that it takes as an item. -/
def credentialKey (id : Octets) (c : Reader) : Result ((Octets × Octets × Int) × Reader) :=
  skip dataWhat 1 c >>= fun (_,after) =>
    coseKeyToSpki spkiOf c.mem c.pos (after.pos-c.pos) >>= fun (der,alg) =>
      .ok ((id,der,alg),after)

def credentialOf (idlen : Nat) (c : Reader) : Result ((Octets × Octets × Int) × Reader) :=
  if idlen = 0 ∨ idlen > 1023 then Cbor.bad dataWhat "credential id length out of range"
  else taken dataWhat idlen c >>= fun (id,c) => credentialKey spkiOf id c

/-- Behind the AAGUID, which is not used. -/
def credential (c : Reader) : Result ((Octets × Octets × Int) × Reader) :=
  if c.left < 18 then Cbor.bad dataWhat "truncated credential data"
  else Cursor.deref c.mem (c.pos+16) >>= fun hi => Cursor.deref c.mem (c.pos+17) >>= fun lo =>
    credentialOf spkiOf (hi.toNat*256+lo.toNat) (c.advance 18)

/-- What follows the fixed part. -/
def authTail (attested extensions : Bool) (c : Reader) : Result ((Octets × Octets × Int) × Reader) :=
  (if attested then credential spkiOf c else .ok (([],[],0),c)) >>= fun (cred,c) =>
    (if extensions then skip dataWhat 1 c else .ok ((),c)) >>= fun (_,c) =>
      if c.pos ≠ c.stop then Cbor.bad dataWhat "trailing bytes" else .ok (cred,c)

def parseAuthData (data : Octets) (wantCredential : Bool) : Result AuthData :=
  if data.length < 37 then bad "authenticator data is shorter than 37 bytes"
  else do
    let rpIdHash ← Cursor.copy data 0 32
    let flags ← Cursor.deref data 32
    let b0 ← Cursor.deref data 33
    let b1 ← Cursor.deref data 34
    let b2 ← Cursor.deref data 35
    let b3 ← Cursor.deref data 36
    let attested : Bool := flags &&& kAttested ≠ 0
    if attested ≠ wantCredential then
      bad (if wantCredential then "registration carries no credential"
        else "sign-in carries a credential it should not")
    else
      let ((id,der,alg),_) ← authTail spkiOf attested (flags &&& kExtensions ≠ 0) (.whole data 37)
      .ok ⟨rpIdHash,flags,bigEndian [b0,b1,b2,b3],id,der,alg⟩

end Code

section Inside

variable {spkiOf : KeyParams → Except Error Octets}

theorem skip_pure_inside {β : Type} (what : String) (b : β) :
    Inside fun c : Reader => skip what 1 c >>= fun (_,c) => (.ok (b,c) : Result (β × Reader)) :=
  (skip_inside 1).bind (g := fun _ c => .ok (b,c)) fun _ => Inside.pure b

/-- A member's value goes into its field. -/
theorem integer_field_inside {β : Type} (what : String) (f : Int → β) :
    Inside fun c : Reader => integer what c >>= fun (v,c) => (.ok (f v,c) : Result (β × Reader)) :=
  integer_inside.bind (g := fun v c => .ok (f v,c)) fun v => Inside.pure (f v)

theorem bytes_field_inside {β : Type} (what : String) (f : Octets → β) :
    Inside fun c : Reader => bytes what c >>= fun (v,c) => (.ok (f v,c) : Result (β × Reader)) :=
  bytes_inside.bind (g := fun v c => .ok (f v,c)) fun v => Inside.pure (f v)

theorem coseLabel_inside (s : CoseFields) (label : Int) : Inside (coseLabel s label) := by
  have hm1 : ∀ major,Inside (coseM1 s major) := fun major =>
    Inside.ite (p := fun _ => major = 2)
      (bytes_field_inside keyWhat fun v => { s with m1Bytes := v })
      (integer_field_inside keyWhat fun v => { s with m1Int := some v })
  exact Inside.ite (p := fun _ => label = 1)
    (integer_field_inside keyWhat fun v => { s with kty := some v })
    (Inside.ite (p := fun _ => label = 3)
      (integer_field_inside keyWhat fun v => { s with alg := some v })
      (Inside.ite (p := fun _ => label = -1) (peekMajor_inside.bind hm1)
        (Inside.ite (p := fun _ => label = -2)
          (bytes_field_inside keyWhat fun v => { s with m2Bytes := v })
          (Inside.ite (p := fun _ => label = -3)
            (bytes_field_inside keyWhat fun v => { s with m3Bytes := v })
            (skip_pure_inside keyWhat s)))))

theorem coseMember_inside (s : CoseFields) : Inside (coseMember s) := by
  refine peekMajor_inside.bind fun major => Inside.ite ?_ ?_
  · exact (skip_inside 1).bind
      (g := fun _ c => skip keyWhat 1 c >>= fun (_,c) => .ok (s,c)) fun _ =>
        skip_pure_inside keyWhat s
  · exact integer_inside.bind (coseLabel_inside s)

theorem coseFields_inside : Inside coseFields :=
  mapCount_inside.bind fun count =>
    (bad_inside _).ite (Inside.loop coseMember_inside count _)

theorem coseKey_refuses (s : CoseFields) :
    Refuses (fun e => ∃ t,e=Halt.thrown t) (coseKey spkiOf s) := by
  have hbad : ∀ why,Refuses (fun e => ∃ t,e=Halt.thrown t) (bad why : Result (Octets × Int)) :=
    fun why e h => ⟨_,(Except.error.inj h).symm⟩
  have hspki : ∀ params alg,
      Refuses (fun e => ∃ t,e=Halt.thrown t) (spki spkiOf params alg) := by
    intro params alg e h
    rw [spki] at h
    split at h
    · cases h
    · exact ⟨_,(Except.error.inj h).symm⟩
  rw [coseKey]
  split
  · split_ifs
    all_goals first | exact hbad _ | exact hspki _ _
  · exact fun e h => ⟨_,(Except.error.inj h).symm⟩

theorem coseKeyToSpki_refuses {mem : Octets} {start len : Nat} (h : start+len ≤ mem.length) :
    Refuses (fun e => ∃ t,e=Halt.thrown t) (coseKeyToSpki spkiOf mem start len) := by
  refine Refuses.bind (coseFields_inside ⟨mem,start,start+len⟩ h).1 fun p => ?_
  refine Refuses.bind (coseKey_refuses p.1) fun key => ?_
  split_ifs
  · exact fun e he => ⟨_,(Except.error.inj he).symm⟩
  · exact Refuses.ok

/-- The key is read from octets that are there. -/
theorem credentialKey_inside (id : Octets) : Inside (credentialKey spkiOf id) := by
  intro c hc
  cases hskip : skip dataWhat 1 c with
  | error e =>
    have hcode : credentialKey spkiOf id c=.error e := by
      rw [credentialKey,hskip]
      rfl
    rw [hcode]
    refine ⟨fun e' h => ?_,fun b c' h => by cases h⟩
    obtain rfl := Except.error.inj h
    exact (skip_inside 1 c hc).1 _ hskip
  | ok p =>
    obtain ⟨u,after⟩ := p
    obtain ⟨x,hitem,hpre,rfl⟩ := (skip_parses 1 c hc u after).mp hskip
    have hend : c.pos+x.length ≤ c.mem.length := by
      have hle := hpre.length_le
      have hpos := hitem.length_pos
      rw [hc.length_rest,Cursor.left] at hle
      rw [Cursor.Fits] at hc
      omega
    have hcode : credentialKey spkiOf id c=coseKeyToSpki spkiOf c.mem c.pos x.length >>=
        fun key => .ok ((id,key.1,key.2),c.advance x.length) := by
      rw [credentialKey,hskip]
      change (coseKeyToSpki spkiOf c.mem c.pos (c.pos+x.length-c.pos) >>= _)=_
      rw [Nat.add_sub_cancel_left]
    rw [hcode]
    refine ⟨Refuses.bind (coseKeyToSpki_refuses hend) fun _ => Refuses.ok,fun b c' h => ?_⟩
    obtain ⟨key,_,h⟩ := bind_eq_ok_iff.mp h
    rw [← (Prod.mk.inj (Except.ok.inj h)).2]
    exact ⟨rfl,rfl⟩

theorem deref_of_lt {mem : Octets} {i : Nat} (h : i < mem.length) :
    ∃ b,(Cursor.deref mem i : Result UInt8)=.ok b := by
  refine ⟨mem[i],?_⟩
  rw [Cursor.deref,List.getElem?_eq_getElem h]

theorem credential_inside : Inside (credential spkiOf) := by
  intro c hc
  by_cases hleft : c.left<18
  · rw [credential,if_pos hleft]
    exact bad_inside (β := Octets × Octets × Int) _ c hc
  · have hlen : c.pos+18 ≤ c.mem.length := by
      rw [Cursor.left] at hleft
      rw [Cursor.Fits] at hc
      omega
    obtain ⟨hi,hhi⟩ := deref_of_lt (show c.pos+16<c.mem.length by omega)
    obtain ⟨lo,hlo⟩ := deref_of_lt (show c.pos+17<c.mem.length by omega)
    have hcode : credential spkiOf c=
        credentialOf spkiOf (hi.toNat*256+lo.toNat) (c.advance 18) := by
      rw [credential,if_neg hleft,hhi]
      change (Cursor.deref c.mem (c.pos+17) >>= _)=_
      rw [hlo]
      rfl
    have hof : Inside (credentialOf spkiOf (hi.toNat*256+lo.toNat)) :=
      (bad_inside _).ite ((taken_inside _).bind credentialKey_inside)
    rw [hcode]
    exact hof (c.advance 18) (hc.advance 18)

theorem authTail_inside (attested extensions : Bool) :
    Inside (authTail spkiOf attested extensions) := by
  apply Inside.bind (f := fun c => if attested then credential spkiOf c else .ok (([],[],0),c))
    (g := fun cred c => (if extensions then skip dataWhat 1 c else .ok ((),c)) >>= fun (_,c) =>
      if c.pos ≠ c.stop then Cbor.bad dataWhat "trailing bytes" else .ok (cred,c))
  · exact credential_inside.ite (Inside.pure _)
  · intro cred
    apply Inside.bind (f := fun c => if extensions then skip dataWhat 1 c else .ok ((),c))
      (g := fun _ c => if c.pos ≠ c.stop then Cbor.bad dataWhat "trailing bytes" else .ok (cred,c))
    · exact (skip_inside 1).ite (Inside.pure _)
    · exact fun _ => (bad_inside _).ite (Inside.pure cred)

/-- Whatever the octets are, none beside them is read. -/
theorem parseAuthData_refuses (data : Octets) (wantCredential : Bool) :
    Refuses (fun e => ∃ t,e=Halt.thrown t) (parseAuthData spkiOf data wantCredential) := by
  rw [parseAuthData]
  by_cases hshort : data.length<37
  · rw [if_pos hshort]
    exact fun e h => ⟨_,(Except.error.inj h).symm⟩
  rw [if_neg hshort]
  have hderef : ∀ i,i<37 →
      Refuses (fun e => ∃ t,e=Halt.thrown t) (Cursor.deref data i : Result UInt8) := by
    intro i hi
    obtain ⟨b,hb⟩ := deref_of_lt (show i<data.length by omega)
    rw [hb]
    exact Refuses.ok
  refine Refuses.bind ?_ fun rpIdHash => ?_
  · rw [Cursor.copy,if_pos (by omega)]
    exact Refuses.ok
  refine Refuses.bind (hderef 32 (by omega)) fun flags => ?_
  refine Refuses.bind (hderef 33 (by omega)) fun b0 => ?_
  refine Refuses.bind (hderef 34 (by omega)) fun b1 => ?_
  refine Refuses.bind (hderef 35 (by omega)) fun b2 => ?_
  refine Refuses.bind (hderef 36 (by omega)) fun b3 => ?_
  dsimp only
  split
  · exact fun e h => ⟨_,(Except.error.inj h).symm⟩
  · refine Refuses.bind (authTail_inside _ _ _ (Cursor.whole_fits data 37)).1 fun p => ?_
    exact Refuses.ok

end Inside

end FastPki.Webauthn
