import FastPki.Framework.Ascii
import Mathlib.Data.List.DropRight
import Mathlib.Tactic.Common

namespace FastPki.Url

open Ascii

/-- The origin of an https URL: its scheme goes without saying, and so does its default port. -/
structure Origin (η : Type*) where
  host : η
  port : Option Nat
  deriving DecidableEq

def isC0OrSpace (c : UInt8) : Bool := c ≤ 0x20

def isTabOrNewline (c : UInt8) : Bool := c = 0x09 || c = 0x0a || c = 0x0d

/-- What the parser makes of its input before it looks at it. -/
def cleaned (input : List UInt8) : List UInt8 :=
  ((input.dropWhile isC0OrSpace).rdropWhile isC0OrSpace).filter (!isTabOrNewline ·)

/-- In the URL of a special scheme a backslash is a slash. -/
def isSlash (c : UInt8) : Bool := c = 0x2f || c = 0x5c

def endsAuthority (c : UInt8) : Bool := isSlash c || c = 0x3f || c = 0x23

/-- The host state: up to a colon that is not inside brackets. -/
def splitHost : Bool → List UInt8 → List UInt8 × Option (List UInt8)
  | _,[] => ([],none)
  | inside,c::text =>
    if c = 0x3a && !inside then ([],some text)
    else
      let inside := if c = 0x5b then true else if c = 0x5d then false else inside
      let rest := splitHost inside text
      (c::rest.1,rest.2)

def defaultPort : Nat := 443

/-- The port state: no digits are no port. -/
def parsePort (text : List UInt8) : Option (Option Nat) :=
  if !text.all isDigit then none
  else if text = [] then some none
  else if value text > 65535 then none
  else some (if value text = defaultPort then none else some (value text))

section Parse

-- `hostParse` is the host parser, `base` the origin that a reference is relative to
variable {η : Type*} (hostParse : List UInt8 → Option η) (base : Origin η)

/-- The authority, credentials before the last at sign put aside. `none` is a failure. -/
def parseAuthority (text : List UInt8) : Option (Origin η) :=
  let hostPort := (text.reverse.takeWhile (· ≠ 0x40)).reverse
  match splitHost false hostPort with
  | ([],_) => none
  | (host,none) => (hostParse host).map (⟨·,none⟩)
  | (host,some port) => (hostParse host).bind fun h => (parsePort port).map (⟨h,·⟩)

/-- The relative slash state: a second slash begins an authority, any more of them are ignored, and
without it the base's own authority stays. -/
def afterSlash (text : List UInt8) : Option (Origin η) :=
  if text.head?.any isSlash then
    parseAuthority hostParse ((text.dropWhile isSlash).takeWhile (!endsAuthority ·))
  else some base

/-- The origin of a reference that begins with a slash; `none` for another, and for one that does
not parse. -/
def slashOrigin (input : List UInt8) : Option (Origin η) :=
  match cleaned input with
  | [] => none
  | c::text => if isSlash c then afterSlash hostParse base text else none

end Parse

/-- What is removed stands between or after, so that a reference keeps its first slash. -/
theorem cleaned_slash (text : List UInt8) :
    cleaned (0x2f::text)=0x2f::(text.rdropWhile isC0OrSpace).filter (!isTabOrNewline ·) := by
  have hdrop : (0x2f::text).dropWhile isC0OrSpace=0x2f::text :=
    List.dropWhile_cons_of_neg (by decide)
  have hright : (0x2f::text).rdropWhile isC0OrSpace=0x2f::text.rdropWhile isC0OrSpace := by
    induction text using List.reverseRecOn with
    | nil => rfl
    | append_singleton text c ih =>
      rw [← List.cons_append]
      by_cases hc : isC0OrSpace c=true
      · rw [List.rdropWhile_concat_pos _ _ _ hc,List.rdropWhile_concat_pos _ _ _ hc]
        exact ih (List.dropWhile_cons_of_neg (by decide))
      · rw [List.rdropWhile_concat_neg _ _ _ hc,List.rdropWhile_concat_neg _ _ _ hc]
        rfl
  rw [cleaned,hdrop,hright,List.filter_cons_of_pos (by decide)]

theorem slashOrigin_slash {η : Type*} (hostParse : List UInt8 → Option η) (base : Origin η)
    (text : List UInt8) : slashOrigin hostParse base (0x2f::text)=
      afterSlash hostParse base ((text.rdropWhile isC0OrSpace).filter (!isTabOrNewline ·)) := by
  rw [slashOrigin,cleaned_slash]
  rfl

end FastPki.Url
