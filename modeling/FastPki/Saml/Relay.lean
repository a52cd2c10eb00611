import FastPki.Framework.Url
import FastPki.X509.Name

namespace FastPki.Saml.Relay

open X509 Url

/-- The test of the handler: a path, and not two slashes. -/
def isPath (relay : Octets) : Bool :=
  relay.head? = some 0x2f && (relay.drop 1).head? ≠ some 0x2f

def dest (relay : Octets) : Octets := if isPath relay then relay else octets "/"

/-- The Location of a sign-in. The HTTP library sends a value as it is, or not at all. -/
def location (sends : Octets → Bool) (relay : Octets) : Option Octets :=
  if sends (dest relay) then some (dest relay) else none

section Browser

-- the host parser of the browser and the origin of the console
variable {η : Type*} (hostParse : List UInt8 → Option η) (console : Origin η)

/-- The browser stays where it is. -/
def Stays (sends : Octets → Bool) (relay : Octets) : Prop :=
  ∀ loc,location sends relay=some loc → slashOrigin hostParse console loc=some console

/-- What the browser reads after the first slash. -/
def afterFirst (relay : Octets) : Octets :=
  ((relay.drop 1).rdropWhile isC0OrSpace).filter (!isTabOrNewline ·)

/-- A slash or a backslash comes next, and what follows is not the console's own authority. -/
def NamesOther (relay : Octets) : Prop :=
  (afterFirst relay).head?.any isSlash=true ∧
    parseAuthority hostParse (((afterFirst relay).dropWhile isSlash).takeWhile (!endsAuthority ·))≠
      some console

end Browser

/-- The browser leaves the console for every relay state that passes the handler's test and yet
begins with two slashes to the browser, unless the console itself is named. -/
theorem relay_stays_iff {η : Type*} (hostParse : List UInt8 → Option η) (console : Origin η)
    (sends : Octets → Bool) (relay : Octets) :
    Stays hostParse console sends relay ↔
      ¬(isPath relay=true ∧ sends relay=true ∧ NamesOther hostParse console relay) := by
  by_cases hpath : isPath relay=true
  · have hdest : dest relay=relay := if_pos hpath
    obtain ⟨text,rfl⟩ : ∃ text,relay=0x2f::text := by
      rw [isPath,Bool.and_eq_true,decide_eq_true_eq] at hpath
      cases relay with
      | nil => cases hpath.1
      | cons c text =>
        obtain rfl := Option.some.inj hpath.1
        exact ⟨text,rfl⟩
    rw [Stays,location,hdest]
    by_cases hsends : sends (0x2f::text)=true
    · rw [if_pos hsends]
      have horigin : slashOrigin hostParse console (0x2f::text)=
          afterSlash hostParse console (afterFirst (0x2f::text)) := slashOrigin_slash ..
      simp only [Option.some.injEq,forall_eq',horigin,hpath,hsends,true_and,NamesOther,afterSlash]
      by_cases hslash : (afterFirst (0x2f::text)).head?.any isSlash=true
      · simp [hslash]
      · simp [hslash]
    · simp [hsends]
  · have hdest : dest relay=octets "/" := if_neg hpath
    have hroot : octets "/"=[0x2f] := by decide
    have horigin : slashOrigin hostParse console (octets "/")=some console := by
      rw [hroot,slashOrigin_slash]
      rfl
    refine iff_of_true (fun loc hloc => ?_) fun h => hpath h.1
    rw [location,hdest] at hloc
    split_ifs at hloc
    obtain rfl := Option.some.inj hloc
    exact horigin

/-- A browser that takes the text of a host for the host. -/
def console : Origin (List UInt8) := ⟨octets "console.example",none⟩

theorem backslash_leaves_console :
    isPath (octets "/\\evil.example/x")=true ∧
    slashOrigin some console (octets "/\\evil.example/x")=some ⟨octets "evil.example",none⟩ ∧
    ¬Stays some console (fun _ => true) (octets "/\\evil.example/x") := by
  have horigin : slashOrigin some console (octets "/\\evil.example/x")=
      some ⟨octets "evil.example",none⟩ := by decide
  refine ⟨by decide,horigin,fun h => ?_⟩
  have hstay := h (octets "/\\evil.example/x") (by decide)
  rw [horigin] at hstay
  exact absurd hstay (by decide)

end FastPki.Saml.Relay
