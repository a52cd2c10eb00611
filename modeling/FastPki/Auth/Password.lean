import FastPki.Auth.Subject
import FastPki.Framework.Decimal
import FastPki.Framework.Hex
import FastPki.Framework.Lines

namespace FastPki.Auth

open X509

def kSaltLen : Nat := 16
def kHashLen : Nat := 32

/-- PBKDF2 with SHA-256, of a password, a salt and a number of iterations; `none` is its failure. -/
abbrev Pbkdf2 := Octets → Octets → Int → Option { d : Octets // d.length = kHashLen }

def dollar : UInt8 := 0x24

def split (s : Octets) (d : UInt8) : List Octets := getlines d s

/-- Empty where the text is no octets. -/
def fromHex (h : Octets) : Octets := (Hex.decode h).getD []

section Code

variable (pbkdf2 : Pbkdf2)

/-- The salt is fresh. -/
def hashPassword (password : Octets) (salt : { s : Octets // s.length = kSaltLen })
    (iterations : Int32) : Option Octets :=
  (pbkdf2 password salt.1 iterations.toInt).map fun h =>
    octets "pbkdf2$"++Decimal.text iterations.toInt++dollar::Hex.encode salt.1++
      dollar::Hex.encode h.1

/-- `none` is the exception of a PBKDF2 that fails. -/
def verifyPassword (password stored : Octets) : Option Bool :=
  match split stored dollar with
  | [scheme,iterations,salt,want] =>
    if scheme ≠ octets "pbkdf2" then some false
    else match Decimal.stoi iterations with
      | none => some false
      | some iter =>
        if fromHex salt = [] ∨ (fromHex want).length ≠ kHashLen then some false
        else (pbkdf2 password (fromHex salt) iter).map fun got => got.1 = fromHex want
  | _ => some false

end Code

section RoundTrip

theorem dollar_notMem_encode (s : Octets) : dollar∉Hex.encode s := by
  intro h
  have hdigit := Hex.value_of_mem_encode h
  cases hdigit

theorem dollar_notMem_text (n : Int) : dollar∉Decimal.text n := by
  have hdigits : ∀ m : Nat,dollar∉decimal m := fun m h =>
    absurd ((Decimal.decimal_spec m).2.2 dollar h) (by decide)
  rw [Decimal.text]
  split_ifs
  · exact hdigits _
  · intro h
    obtain h|h := List.mem_cons.mp h
    · exact absurd h (by decide)
    · exact hdigits _ h

theorem encode_ne_nil {s : Octets} (h : s≠[]) : Hex.encode s≠[] := by
  intro hnil
  have hlen := Hex.length_encode s
  rw [hnil,List.length_nil] at hlen
  exact h (List.length_eq_zero_iff.mp (by omega))

/-- Four fields without the separator, of which the last is not empty, are read back. -/
theorem split_fields {a b c d : Octets} (ha : dollar∉a) (hb : dollar∉b) (hc : dollar∉c)
    (hd : dollar∉d) (hne : d≠[]) : split (a++dollar::b++dollar::c++dollar::d) dollar=[a,b,c,d] := by
  simp only [split,List.append_assoc,List.cons_append]
  rw [getlines_append_cons ha,getlines_append_cons hb,getlines_append_cons hc,
    getlines_of_notMem hd hne]

theorem fromHex_encode (s : Octets) : fromHex (Hex.encode s)=s := by
  rw [fromHex,Hex.decode_encode]
  rfl

theorem ne_nil_of_length {s : Octets} {n : Nat} (h : s.length=n+1) : s≠[] := by
  intro hnil
  rw [hnil] at h
  cases h

theorem verifyPassword_stored (pbkdf2 : Pbkdf2) (other : Octets)
    (salt : { s : Octets // s.length = kSaltLen }) (iterations : Int32)
    (h : { d : Octets // d.length = kHashLen }) :
    verifyPassword pbkdf2 other (octets "pbkdf2$"++Decimal.text iterations.toInt++
      dollar::Hex.encode salt.1++dollar::Hex.encode h.1)=
    (pbkdf2 other salt.1 iterations.toInt).map fun got => decide (got=h) := by
  have hscheme : octets "pbkdf2$"=octets "pbkdf2"++[dollar] := by decide
  have hsplit : split (octets "pbkdf2$"++Decimal.text iterations.toInt++dollar::Hex.encode salt.1++
      dollar::Hex.encode h.1) dollar=
      [octets "pbkdf2",Decimal.text iterations.toInt,Hex.encode salt.1,Hex.encode h.1] := by
    rw [hscheme,List.append_assoc (octets "pbkdf2") [dollar],List.singleton_append]
    exact split_fields (by decide) (dollar_notMem_text _) (dollar_notMem_encode _)
      (dollar_notMem_encode _) (encode_ne_nil (ne_nil_of_length h.2))
  have hrange : -2147483648 ≤ iterations.toInt ∧ iterations.toInt ≤ 2147483647 :=
    ⟨Int32.le_toInt iterations,Int32.toInt_le iterations⟩
  rw [verifyPassword,hsplit]
  simp only [ne_eq,not_true_eq_false,if_false,Decimal.stoi_text hrange,fromHex_encode,
    ne_nil_of_length salt.2,h.2,or_self]
  congr 1
  funext got
  exact decide_eq_decide.mpr Subtype.ext_iff.symm

/-- A stored hash accepts the passwords that PBKDF2 takes to the same value under its salt and its
iterations, whatever these are. In particular it accepts its own. -/
theorem password_hash_round_trip (pbkdf2 : Pbkdf2) (password other : Octets)
    (salt : { s : Octets // s.length = kSaltLen }) (iterations : Int32) :
    (hashPassword pbkdf2 password salt iterations).bind (verifyPassword pbkdf2 other)=
      ((pbkdf2 password salt.1 iterations.toInt).bind fun h =>
        (pbkdf2 other salt.1 iterations.toInt).map fun got => decide (got=h)) ∧
    (hashPassword pbkdf2 password salt iterations).all
      (verifyPassword pbkdf2 password · = some true)=true := by
  rw [hashPassword]
  cases hown : pbkdf2 password salt.1 iterations.toInt with
  | none => exact ⟨rfl,rfl⟩
  | some h =>
    refine ⟨verifyPassword_stored pbkdf2 other salt iterations h,?_⟩
    have hself := verifyPassword_stored pbkdf2 password salt iterations h
    rw [hown,Option.map_some,decide_eq_true rfl] at hself
    exact decide_eq_true hself

end RoundTrip

end FastPki.Auth
