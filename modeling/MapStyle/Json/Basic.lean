import MapStyle.Number.Scalar

/-!
# Documents

A document is a JSON value.  Numbers keep the two kinds in which they are written: integers, exact
and of any size that a reader lets through, and all others, which are scalars.  Members of an object
stand in the order of their keys, each key once; `Json.ofMembers` brings members into this form, the
last of equal keys staying.
-/

set_option autoImplicit false

namespace MapStyle

inductive Json (ν : Type) where
  | null
  | bool (b : Bool)
  | int (n : Int)
  | float (x : ν)
  | str (s : String)
  | arr (items : List (Json ν))
  | obj (members : List (String × Json ν))
deriving Inhabited

/-- Adds a member to members in key order, replacing one of the same key. -/
def insertMember {α : Type} (key : String) (a : α) : List (String × α) → List (String × α)
  | [] => [(key, a)]
  | (k, b) :: rest =>
    if key < k then (key, a) :: (k, b) :: rest
    else if key = k then (key, a) :: rest
    else (k, b) :: insertMember key a rest

/-- Members in key order, the last of equal keys staying. -/
def sortMembers {α : Type} (members : List (String × α)) : List (String × α) :=
  members.foldl (fun sorted m => insertMember m.1 m.2 sorted) []

namespace Json

variable {ν : Type}

def ofMembers (members : List (String × Json ν)) : Json ν := .obj (sortMembers members)

def get? (key : String) : Json ν → Option (Json ν)
  | .obj members => members.lookup key
  | _ => none

def isNull : Json ν → Bool
  | .null => true
  | _ => false

def isObject : Json ν → Bool
  | .obj _ => true
  | _ => false

def asBool? : Json ν → Option Bool
  | .bool b => some b
  | _ => none

def asString? : Json ν → Option String
  | .str s => some s
  | _ => none

def asItems? : Json ν → Option (List (Json ν))
  | .arr items => some items
  | _ => none

/-- A whole number written as an integer that fits an unsigned 64-bit word. -/
def asSize? : Json ν → Option Nat
  | .int n => if 0 ≤ n ∧ n ≤ Word.greatest then some n.toNat else none
  | _ => none

def asNumber? [Scalar ν] : Json ν → Option ν
  | .int n => some (Scalar.ofInt n)
  | .float x => some x
  | _ => none

end Json

end MapStyle
