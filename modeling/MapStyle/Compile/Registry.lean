import MapStyle.Compile.Site

/-!
# Operators and their registry

An operator is compiled by a parse function, which is given the form it heads and the site.  The
arguments of a form come as operands: documents together with their compilation, so that a parse
function compiles those it needs, in the order and for the types it needs.  A registry maps operator
names to parse functions.
-/

set_option autoImplicit false

namespace MapStyle

/-- A document, its compilation at a site, and, if it is an object, its members. -/
structure Operand (ν : Type) where
  json : Json ν
  compile : Site ν → Compiling (Expr ν)
  members : List (String × Operand ν)

/-- A form: the name of its operator, its arguments, and the operands of constants that do not stand
in it. -/
structure Form (ν : Type) where
  name : String
  args : List (Operand ν)
  constant : Json ν → Operand ν

abbrev ParseFn (ν : Type) := Form ν → Site ν → Compiling (Expr ν)

namespace Operand

variable {ν : Type}

def compileAt (o : Operand ν) (s : Site ν) (position : Nat) (expected : Option Ty) :
    Compiling (Expr ν) :=
  o.compile (s.child position expected)

/-- Compiles operands as arguments of consecutive positions, stopping at the first without a
result. -/
def compileAll (s : Site ν) (expected : Option Ty) : Nat → List (Operand ν) →
    Compiling (List (Expr ν))
  | _, [] => pure []
  | position, o :: rest => do
    let e ← o.compileAt s position expected
    let es ← compileAll s expected (position + 1) rest
    pure (e :: es)

end Operand

/-- The parse functions of operator names; the names ascend. -/
structure Registry (ν : Type) where
  entries : List (String × ParseFn ν)

namespace Registry

variable {ν : Type}

def empty : Registry ν := ⟨[]⟩

def get? (r : Registry ν) (name : String) : Option (ParseFn ν) := r.entries.lookup name

/-- A registry with a parse function for a name, in place of any other. -/
def register (r : Registry ν) (name : String) (parse : ParseFn ν) : Registry ν :=
  ⟨insertMember name parse r.entries⟩

def has (r : Registry ν) (name : String) : Bool := (r.get? name).isSome

def names (r : Registry ν) : List String := r.entries.map (·.1)

end Registry

def Json.kindName {ν : Type} : Json ν → String
  | .bool _ => "boolean"
  | .int _ => "number"
  | .float _ => "number"
  | .str _ => "string"
  | .null => "object"
  | .arr _ => "object"
  | .obj _ => "object"

end MapStyle
