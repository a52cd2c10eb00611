import FastPki.Framework.Keyed
import FastPki.Framework.Narrow
import Mathlib.Algebra.Ring.Int.Defs
import Mathlib.Data.List.Sort
import Mathlib.Data.String.Basic

namespace FastPki

section OrderBy

variable {κ ρ : Type*} [LinearOrder κ]

/-- `ORDER BY`. -/
def orderBy (f : ρ → κ) (rows : List ρ) : List ρ := rows.insertionSort fun a b => f a ≤ f b

@[simp] theorem mem_orderBy {f : ρ → κ} {rows : List ρ} {x : ρ} : x∈orderBy f rows ↔ x∈rows :=
  List.mem_insertionSort _

theorem perm_orderBy (f : ρ → κ) (rows : List ρ) : (orderBy f rows).Perm rows :=
  List.perm_insertionSort _ rows

theorem nodup_orderBy {ι : Type*} {f : ρ → κ} {key : ρ → ι} {rows : List ρ} (h : (rows.map key).Nodup) :
    ((orderBy f rows).map key).Nodup :=
  ((perm_orderBy f rows).map key).nodup_iff.mpr h

/-- Where the keys differ, what is found under a key does not depend on the order. -/
theorem lookup_orderBy {ι : Type*} [DecidableEq ι] {f : ρ → κ} {key : ρ → ι} {rows : List ρ}
    (h : (rows.map key).Nodup) (k : ι) : lookup key k (orderBy f rows)=lookup key k rows := by
  let t : Keyed key := ⟨rows,h⟩
  let sorted : Keyed key := ⟨orderBy f rows,nodup_orderBy h⟩
  have hfind : ∀ x,sorted.find k=some x ↔ t.find k=some x := by
    intro x
    rw [Keyed.find_eq_some,Keyed.find_eq_some,mem_orderBy]
  exact Option.ext hfind

end OrderBy

/-- A JSON value. The members of an object stand in the order of their names, and a floating-point
number is given by its 64 bits. -/
inductive Json where
  | null
  | bool (b : Bool)
  | int (n : Int)
  | float (bits : UInt64)
  | str (s : String)
  | arr (items : List Json)
  | obj (members : List (String × Json))

namespace Json

def object (members : List (String × Json)) : Json := .obj (orderBy Prod.fst members)

def find (j : Json) (name : String) : Option Json :=
  match j with
  | .obj members => (lookup Prod.fst name members).map Prod.snd
  | _ => none

def contains (j : Json) (name : String) : Bool := (j.find name).isSome

def isObject : Json → Bool
  | .obj _ => true
  | _ => false

/-- What `for (x : j)` goes through. -/
def elements : Json → List Json
  | .null => []
  | .arr l => l
  | .obj members => members.map Prod.snd
  | j => [j]

def items : Json → List (String × Json)
  | .null => []
  | .arr l => l.zipIdx.map fun p => (toString p.2,p.1)
  | .obj members => members
  | j => [("",j)]

section Get

/-- Towards zero. -/
def truncate (bits : UInt64) : Int :=
  let e := (bits>>>52 &&& 0x7ff).toNat
  let m := (bits &&& 0xfffffffffffff).toNat+(if e = 0 then 0 else 2^52)
  let n : Nat := if 1075 ≤ e then m*2^(e-1075) else m/2^(1075-e)
  if bits>>>63 = 1 then -n else n

/-! `get<T>`; `none` is its exception. A number is cast to the type that is asked for. -/

def getStr : Json → Option String
  | .str s => some s
  | _ => none

def getBool : Json → Option Bool
  | .bool b => some b
  | _ => none

def getInt64 : Json → Option Int
  | .int n => some (narrow 64 n)
  | .float bits => some (truncate bits)
  | _ => none

/-- The narrower types take a boolean too. -/
def getInt : Json → Option Int
  | .bool b => some b.toNat
  | j => j.getInt64.map (narrow 32)

def getUnsigned (j : Json) : Option Nat := j.getInt.map fun n => (n%2^32).toNat

def getStrings : Json → Option (List String)
  | .arr l => l.mapM getStr
  | _ => none

theorem getInt64_int {n : Int} (h : InInt 64 n) : (Json.int n).getInt64=some n := by
  rw [getInt64,narrow_of_inInt (by decide) h]

theorem getInt_int {n : Int} (h : InInt 32 n) : (Json.int n).getInt=some n := by
  have hwide : InInt 64 n := by
    rw [InInt] at h ⊢
    omega
  change (Json.int n).getInt64.map (narrow 32)=some n
  rw [getInt64_int hwide,Option.map_some,narrow_of_inInt (by decide) h]

end Get

/-- `j.value(name, default)`, which throws for what is no object and for a member of another type. -/
def value {α : Type} (get : Json → Option α) (j : Json) (name : String) (default : α) : Option α :=
  match j with
  | .obj members => (lookup Prod.fst name members).elim (some default) fun m => get m.2
  | _ => none

section Object

variable {members : List (String × Json)}

theorem value_object {α : Type} {get : Json → Option α} (h : (members.map Prod.fst).Nodup)
    (name : String) (default : α) : (object members).value get name default=
    (lookup Prod.fst name members).elim (some default) fun m => get m.2 := by
  rw [object,value,lookup_orderBy h]

theorem find_object (h : (members.map Prod.fst).Nodup) (name : String) :
    (object members).find name=(lookup Prod.fst name members).map Prod.snd := by
  rw [object,find,lookup_orderBy h]

theorem mem_items_object {m : String × Json} : m∈(object members).items ↔ m∈members := by
  rw [object,items,mem_orderBy]

end Object

theorem getStrings_map (l : List String) : getStrings (.arr (l.map .str))=some l := by
  rw [getStrings]
  induction l with
  | nil => rfl
  | cons s l ih => simp [List.mapM_cons,ih,getStr]

end Json

end FastPki
