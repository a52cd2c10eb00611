import FastPki.Framework.Except
import FastPki.Framework.Narrow
import FastPki.Profile.CertProfile
import FastPki.X509.Name

namespace FastPki.Backup
open X509

/-! A backup under a passphrase: what it was written from, and what is opened. -/

def kMagic : Octets := octets "FPKIBAK1"
def kSaltLen : Nat := 16
def kIvLen : Nat := 12
def kTagLen : Nat := 16

/-- AES-256 in Galois/Counter mode: the cipher text is as long as the text, and with a tag it is
opened exactly where it is what sealing the text gives. -/
structure Gcm where
  encrypt : Octets → Octets → Octets → Octets × Octets
  decrypt : Octets → Octets → Octets → Octets → Option Octets
  text_length : ∀ key iv p,(encrypt key iv p).1.length = p.length
  tag_length : ∀ key iv p,(encrypt key iv p).2.length = kTagLen
  decrypt_eq_some_iff : ∀ key iv c tag p,decrypt key iv c tag = some p ↔ encrypt key iv p = (c,tag)

/-- A mode that hides nothing. -/
instance : Inhabited Gcm where
  default := {
    encrypt := fun _ _ p => (p,List.replicate kTagLen 0)
    decrypt := fun _ _ c tag => if tag = List.replicate kTagLen 0 then some c else none
    text_length := fun _ _ _ => rfl
    tag_length := fun _ _ _ => List.length_replicate
    decrypt_eq_some_iff := by
      intro _ _ c tag p
      split_ifs with h
      · simp [h,eq_comm]
      · simp [Ne.symm h] }

/-- What OpenSSL is given of a text: as many of its octets as its length says, cast to `int`. It takes
no text of a negative length. -/
def given (text : Octets) : Option Octets :=
  if intOf text.length < 0 then none else some (text.take (intOf text.length).toNat)

section Code

-- the key of a passphrase, with its cast length, and a salt; `none` is its failure
variable (gcm : Gcm) (kdf : Octets → Int → Octets → Option Octets)

def deriveKey (passphrase salt : Octets) : Except Error Octets :=
  requireSome (kdf passphrase (intOf passphrase.length) salt) ⟨1,"backup: key derivation failed"⟩

def isEncryptedBackup (blob : Octets) : Bool := kMagic.isPrefixOf blob

/-- The salt and the nonce are fresh. -/
def encryptBackup (plaintext passphrase : Octets) (salt : { s : Octets // s.length = kSaltLen })
    (iv : { v : Octets // v.length = kIvLen }) : Except Error Octets := do
  refuseIf (passphrase = []) ⟨1,"backup: a passphrase is required to encrypt"⟩
  let key ← deriveKey kdf passphrase salt.1
  let text ← requireSome (given plaintext) ⟨1,"backup: encryption failed"⟩
  let sealed := gcm.encrypt key iv.1 text
  .ok (kMagic++salt.1++iv.1++sealed.1++sealed.2)

def decryptBackup (blob passphrase : Octets) : Except Error Octets := do
  refuseIf (isEncryptedBackup blob = false) ⟨1,"backup: not an encrypted FastPKI backup"⟩
  refuseIf (passphrase = []) ⟨1,"backup: this backup is encrypted — a passphrase is required"⟩
  let hdr := kMagic.length+kSaltLen+kIvLen
  refuseIf (blob.length < hdr+kTagLen) ⟨1,"backup: file is truncated"⟩
  let salt := (blob.drop kMagic.length).take kSaltLen
  let iv := (blob.drop (kMagic.length+kSaltLen)).take kIvLen
  let ctLen := blob.length-hdr-kTagLen
  let ct := (blob.drop hdr).take ctLen
  let tag := (blob.drop (hdr+ctLen)).take kTagLen
  let key ← deriveKey kdf passphrase salt
  let ct ← requireSome (given ct) ⟨1,"backup: decryption failed"⟩
  requireSome (gcm.decrypt key iv ct tag) ⟨1,"backup: wrong passphrase, or the file is corrupt"⟩

end Code

section Fields

/-- A length below 2^31 is cast to itself. -/
theorem given_eq_some {text : Octets} (h : text.length < 2^31) : given text=some text := by
  have hpos : ¬(text.length : Int) < 0 := by omega
  rw [given,intOf_of_lt h,if_neg hpos,Int.toNat_natCast,List.take_length]

/-- A blob long enough is its fields, one after the other. -/
theorem blob_fields {blob : Octets} (hmagic : isEncryptedBackup blob=true)
    (hlen : ¬blob.length < kMagic.length+kSaltLen+kIvLen+kTagLen) :
    let ctLen := blob.length-(kMagic.length+kSaltLen+kIvLen)-kTagLen
    ((blob.drop kMagic.length).take kSaltLen).length=kSaltLen ∧
    ((blob.drop (kMagic.length+kSaltLen)).take kIvLen).length=kIvLen ∧
    blob=kMagic++(blob.drop kMagic.length).take kSaltLen++
      (blob.drop (kMagic.length+kSaltLen)).take kIvLen++
      (blob.drop (kMagic.length+kSaltLen+kIvLen)).take ctLen++
      (blob.drop (kMagic.length+kSaltLen+kIvLen+ctLen)).take kTagLen := by
  intro ctLen
  obtain ⟨rest,rfl⟩ := List.isPrefixOf_iff_prefix.mp hmagic
  rw [List.length_append] at hlen
  have hrest : kSaltLen+kIvLen+kTagLen ≤ rest.length := by omega
  have hct : ctLen=rest.length-kSaltLen-kIvLen-kTagLen := by
    simp only [ctLen,List.length_append]
    omega
  have hdrop : ∀ n,(kMagic++rest).drop (kMagic.length+n)=rest.drop n := fun n => by
    rw [← List.drop_drop,List.drop_left]
  have h0 : (kMagic++rest).drop kMagic.length=rest := List.drop_left
  have h1 := hdrop kSaltLen
  have h2 : (kMagic++rest).drop (kMagic.length+kSaltLen+kIvLen)=rest.drop (kSaltLen+kIvLen) := by
    rw [Nat.add_assoc,hdrop]
  have h3 : (kMagic++rest).drop (kMagic.length+kSaltLen+kIvLen+ctLen)=
      rest.drop (kSaltLen+kIvLen+ctLen) := by
    rw [Nat.add_assoc,Nat.add_assoc,hdrop,Nat.add_assoc]
  rw [h0,h1,h2,h3]
  refine ⟨?_,?_,?_⟩
  · rw [List.length_take]
    omega
  · rw [List.length_take,List.length_drop]
    omega
  · have htag : (rest.drop (kSaltLen+kIvLen+ctLen)).take kTagLen=rest.drop (kSaltLen+kIvLen+ctLen) := by
      refine List.take_of_length_le ?_
      rw [List.length_drop]
      omega
    rw [htag]
    simp only [List.append_assoc,List.append_cancel_left_eq]
    have hsplit : ∀ n m,rest.drop n=(rest.drop n).take m++rest.drop (n+m) := fun n m => by
      rw [← List.drop_drop,List.take_append_drop]
    have hs0 := hsplit 0 kSaltLen
    rw [List.drop_zero,Nat.zero_add] at hs0
    rw [← hsplit (kSaltLen+kIvLen) ctLen,← hsplit kSaltLen kIvLen,← hs0]

/-- The fields of a blob that was put together are read back. -/
theorem fields_blob {salt iv c tag : Octets} (hs : salt.length=kSaltLen) (hi : iv.length=kIvLen)
    (ht : tag.length=kTagLen) :
    let blob := kMagic++salt++iv++c++tag
    let ctLen := blob.length-(kMagic.length+kSaltLen+kIvLen)-kTagLen
    isEncryptedBackup blob=true ∧ ¬blob.length < kMagic.length+kSaltLen+kIvLen+kTagLen ∧
    (blob.drop kMagic.length).take kSaltLen=salt ∧
    (blob.drop (kMagic.length+kSaltLen)).take kIvLen=iv ∧
    (blob.drop (kMagic.length+kSaltLen+kIvLen)).take ctLen=c ∧
    (blob.drop (kMagic.length+kSaltLen+kIvLen+ctLen)).take kTagLen=tag := by
  intro blob ctLen
  have hlen : blob.length=kMagic.length+kSaltLen+kIvLen+c.length+kTagLen := by
    simp only [blob,List.length_append,hs,hi,ht]
  have hct : ctLen=c.length := by omega
  have h0 : blob=kMagic++(salt++(iv++(c++tag))) := by simp [blob]
  have h1 : blob=(kMagic++salt)++(iv++(c++tag)) := by simp [blob]
  have h2 : blob=(kMagic++salt++iv)++(c++tag) := by simp [blob]
  have h3 : blob=(kMagic++salt++iv++c)++tag := rfl
  refine ⟨?_,by omega,?_,?_,?_,?_⟩
  · rw [isEncryptedBackup,List.isPrefixOf_iff_prefix,h0]
    exact List.prefix_append _ _
  · rw [h0,List.drop_left,← hs,List.take_left]
  · have hn : kMagic.length+kSaltLen=(kMagic++salt).length := by rw [List.length_append,hs]
    rw [h1,hn,List.drop_left,← hi,List.take_left]
  · have hn : kMagic.length+kSaltLen+kIvLen=(kMagic++salt++iv).length := by
      rw [List.length_append,List.length_append,hs,hi]
    rw [hct,h2,hn,List.drop_left,List.take_left]
  · have hn : kMagic.length+kSaltLen+kIvLen+c.length=(kMagic++salt++iv++c).length := by
      rw [List.length_append,List.length_append,List.length_append,hs,hi]
    rw [hct,h3,hn,List.drop_left,← ht,List.take_length]

/-- The octets of a backup besides its cipher text. -/
def envelopeLen : Nat := kMagic.length+kSaltLen+kIvLen+kTagLen

/-- For texts below 2^31 octets, a passphrase opens a backup to a text exactly where writing that
text under the passphrase, with some salt and nonce, gives this backup: what is written is read back,
and nothing else is accepted. -/
theorem backup_opens_iff_written (gcm : Gcm) (kdf : Octets → Int → Octets → Option Octets)
    (blob passphrase plaintext : Octets) (hblob : blob.length < envelopeLen+2^31)
    (htext : plaintext.length < 2^31) :
    decryptBackup gcm kdf blob passphrase=.ok plaintext ↔
      ∃ salt iv,encryptBackup gcm kdf plaintext passphrase salt iv=.ok blob := by
  have hgiven := given_eq_some htext
  constructor
  · intro h
    rw [decryptBackup] at h
    obtain ⟨_,hmagic,h⟩ := bind_eq_ok_iff.mp h
    obtain ⟨_,hpass,h⟩ := bind_eq_ok_iff.mp h
    obtain ⟨_,hlen,h⟩ := bind_eq_ok_iff.mp h
    obtain ⟨key,hkey,h⟩ := bind_eq_ok_iff.mp h
    obtain ⟨ct,hct,h⟩ := bind_eq_ok_iff.mp h
    rw [refuseIf_eq_ok_iff] at hmagic hlen hpass
    have hmagic : isEncryptedBackup blob=true := by simpa using hmagic
    obtain ⟨hsalt,hiv,hblobFields⟩ := blob_fields hmagic hlen
    have hshort : ((blob.drop (kMagic.length+kSaltLen+kIvLen)).take
        (blob.length-(kMagic.length+kSaltLen+kIvLen)-kTagLen)).length < 2^31 := by
      rw [envelopeLen] at hblob
      rw [List.length_take]
      omega
    rw [given_eq_some hshort] at hct
    obtain rfl := Option.some.inj (requireSome_eq_ok_iff.mp hct)
    have hopen := (gcm.decrypt_eq_some_iff _ _ _ _ _).mp (requireSome_eq_ok_iff.mp h)
    refine ⟨⟨_,hsalt⟩,⟨_,hiv⟩,?_⟩
    rw [encryptBackup]
    refine bind_eq_ok_iff.mpr ⟨(),refuseIf_eq_ok_iff.mpr hpass,
      bind_eq_ok_iff.mpr ⟨key,hkey,bind_eq_ok_iff.mpr
        ⟨plaintext,requireSome_eq_ok_iff.mpr hgiven,?_⟩⟩⟩
    simp only [hopen]
    rw [← hblobFields]
  · rintro ⟨salt,iv,h⟩
    rw [encryptBackup] at h
    obtain ⟨_,hpass,h⟩ := bind_eq_ok_iff.mp h
    obtain ⟨key,hkey,h⟩ := bind_eq_ok_iff.mp h
    obtain ⟨text,hsame,h⟩ := bind_eq_ok_iff.mp h
    rw [refuseIf_eq_ok_iff] at hpass
    rw [hgiven] at hsame
    obtain rfl := Option.some.inj (requireSome_eq_ok_iff.mp hsame)
    cases Except.ok.inj h
    obtain ⟨hmagic,hlen,hsalt,hiv,hct,htag⟩ := fields_blob salt.2 iv.2
      (gcm.tag_length key iv.1 plaintext)
    have hshort : (gcm.encrypt key iv.1 plaintext).1.length < 2^31 := by
      rw [gcm.text_length]
      exact htext
    rw [decryptBackup]
    have hseen := Bool.ne_false_iff.mpr hmagic
    refine bind_eq_ok_iff.mpr ⟨(),refuseIf_eq_ok_iff.mpr hseen,
      bind_eq_ok_iff.mpr ⟨(),refuseIf_eq_ok_iff.mpr hpass,
        bind_eq_ok_iff.mpr ⟨(),refuseIf_eq_ok_iff.mpr hlen,bind_eq_ok_iff.mpr ⟨key,?_,
          bind_eq_ok_iff.mpr ⟨(gcm.encrypt key iv.1 plaintext).1,?_,?_⟩⟩⟩⟩⟩
    · simp only [hsalt]
      exact hkey
    · simp only [hct]
      exact requireSome_eq_ok_iff.mpr (given_eq_some hshort)
    · simp only [hiv,htag]
      exact requireSome_eq_ok_iff.mpr ((gcm.decrypt_eq_some_iff _ _ _ _ _).mpr rfl)

/-- A backup of two octets, under a key that is the passphrase and the salt. -/
theorem backup_opens_iff_written_short :
    let salt : { s : Octets // s.length = kSaltLen } := ⟨List.replicate kSaltLen 1,by decide⟩
    let iv : { v : Octets // v.length = kIvLen } := ⟨List.replicate kIvLen 2,by decide⟩
    let blob := kMagic++salt.1++iv.1++octets "ca"++List.replicate kTagLen 0
    decryptBackup default (fun p _ s => some (p++s)) blob (octets "secret")=.ok (octets "ca") := by
  intro salt iv blob
  have hwritten : encryptBackup default (fun p _ s => some (p++s)) (octets "ca") (octets "secret")
      salt iv=.ok blob := by decide +kernel
  exact (backup_opens_iff_written default (fun p _ s => some (p++s)) blob (octets "secret")
    (octets "ca") (by decide +kernel) (by decide +kernel)).mpr ⟨salt,iv,hwritten⟩

end Fields

end FastPki.Backup
