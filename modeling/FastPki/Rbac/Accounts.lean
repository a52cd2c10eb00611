import FastPki.Auth.Subject
import FastPki.Framework.Digest
import FastPki.Rbac.Users

namespace FastPki.Rbac.Users

open X509
open Auth (asciiLower collationC)

/-! One table `web_users`: the names as text, and as the octets that the sign-in compares. -/

section Octets

theorem octets_eq (s : String) : octets s=s.toList.flatMap String.utf8EncodeChar :=
  toUTF8_eq_flatMap s

/-- Folding a character folds its octets. -/
theorem map_asciiLower_utf8EncodeChar (c : Char) :
    (String.utf8EncodeChar c).map asciiLower=String.utf8EncodeChar c.toLower := by
  by_cases hlow : c.val.toNat<0x80
  · have hall : ∀ v<128,(Char.ofNat v).toLower.val.toNat<128 ∧
        asciiLower (UInt8.ofNat v)=UInt8.ofNat (Char.ofNat v).toLower.val.toNat := by
      decide +kernel
    obtain ⟨hfold,hoctet⟩ := hall c.val.toNat hlow
    have hchar : Char.ofNat c.val.toNat=c := Char.ofNat_toNat c
    rw [hchar] at hfold hoctet
    rw [utf8EncodeChar_low hlow,utf8EncodeChar_low hfold,← hoctet]
    rfl
  · rw [Nat.not_lt] at hlow
    have hsame : c.toLower=c := by
      rw [Char.toLower,dif_neg]
      rintro ⟨-,hz⟩
      rw [UInt32.le_iff_toNat_le] at hz
      have hlast : 'Z'.val.toNat=90 := rfl
      omega
    have hkeep : ∀ b∈String.utf8EncodeChar c,asciiLower b=id b := by
      intro b hb
      have hhigh := utf8EncodeChar_high hlow b hb
      rw [asciiLower,if_neg]
      · rfl
      · rintro ⟨-,hz⟩
        have hz' : b.toNat ≤ 90 := UInt8.le_iff_toNat_le.mp hz
        omega
    rw [hsame,List.map_congr_left hkeep,List.map_id]

theorem octets_lower (s : String) : octets (lower s)=collationC.lower (octets s) := by
  have hfold : collationC.lower (octets s)=(octets s).map asciiLower := rfl
  rw [hfold,octets_eq,octets_eq,lower,String.toList_ofList,List.flatMap_map,List.map_flatMap]
  exact congrArg (fun f => s.toList.flatMap f)
    (funext fun c => (map_asciiLower_utf8EncodeChar c).symm)

/-- The octets of a name end where its text does. -/
theorem octets_cStr (s : String) : octets (cStr s)=cString (octets s) := by
  rw [octets_eq,octets_eq,cStr,String.toList_ofList]
  induction s.toList with
  | nil => rfl
  | cons c l ih =>
    by_cases hc : c = '\x00'
    · rw [hc]
      rfl
    · rw [List.takeWhile_cons_of_pos (by simpa using hc),List.flatMap_cons,List.flatMap_cons,ih,
        cString_append_of_notMem (zero_notMem_utf8EncodeChar hc)]

end Octets

variable (db : UsersDb)

/-- The row as the console's sign-in reads it. -/
def Account.webUser (a : Account) : Auth.WebUser := ⟨octets a.username,a.role,a.hash,a.mustReset⟩

/-- What the sign-in finds is what the user administration finds. -/
theorem getWebUser_webUser (name : String) :
    Auth.getWebUser collationC (db.webUsers.map Account.webUser) (octets name)=
      (getWebUser db (cStr name)).map Account.webUser := by
  have hkey : ∀ a : Account,(collationC.lower (octets a.username)=
      collationC.lower (cString (octets name))) ↔ a.key=lower (cStr name) := by
    intro a
    rw [← octets_cStr,← octets_lower,← octets_lower]
    exact ⟨fun h => toUTF8_injective h,fun h => congrArg octets h⟩
  have hsame : ((fun u : Auth.WebUser => decide (collationC.lower u.username=
      collationC.lower (cString (octets name)))) ∘ Account.webUser)=
      fun a : Account => decide (a.key=lower (cStr name)) :=
    funext fun a => decide_eq_decide.mpr (hkey a)
  rw [Auth.getWebUser,getWebUser,lookup,List.find?_map,hsame]

/-- The authorization reads the name and the role of that row. -/
theorem getWebUser_rbac (name : String) :
    Rbac.getWebUser db.rbac name=(getWebUser db name).map fun a => ⟨a.username,a.role⟩ := by
  rw [Rbac.getWebUser,UsersDb.rbac,getWebUser,lookup,List.find?_map]
  rfl

end FastPki.Rbac.Users
