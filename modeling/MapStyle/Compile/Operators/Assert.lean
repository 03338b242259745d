import MapStyle.Compile.Registry

/-!
# Asserting types

The operators `string`, `number`, `boolean`, `object` and `array`.  Any other name of these parse
functions is read as `array`.
-/

set_option autoImplicit false

namespace MapStyle

namespace Operator

variable {ν : Type}

def assertedType? : String → Option Ty
  | "string" => some .string
  | "number" => some .number
  | "boolean" => some .boolean
  | "object" => some .object
  | _ => none

def itemType? (j : Json ν) : Option Ty :=
  match j with
  | .str "string" => some .string
  | .str "number" => some .number
  | .str "boolean" => some .boolean
  | _ => none

/-- The length that an assertion of arrays states: null for any. -/
def length? (j : Json ν) : Option (Option Nat) :=
  match j with
  | .null => some none
  | j => j.asSize?.map some

def assertion (site : Site ν) (t : Ty) (position : Nat) (args : List (Operand ν)) :
    Compiling (Expr ν) := do
  let es ← Operand.compileAll site (some .value) position args
  pure (.assertion t es)

/-- `["array", value]`, `["array", item, value]` and `["array", item, length, value, …]`. -/
def assertArray (site : Site ν) (args : List (Operand ν)) : Compiling (Expr ν) :=
  match args with
  | item :: length :: arg :: rest =>
    match itemType? item.json with
    | none => site.failAt [1] .arrayItemType
    | some t =>
      match length? length.json with
      | none => site.failAt [2] .arrayLength
      | some n => assertion site (.array t n) 3 (arg :: rest)
  | [item, arg] =>
    match itemType? item.json with
    | none => site.failAt [1] .arrayItemType
    | some t => assertion site (.array t none) 2 [arg]
  | args => assertion site (.array .value none) 1 args

/-- `["string", value, …]` and the other assertions. -/
def assert : ParseFn ν := fun form site =>
  if form.args.isEmpty then site.fail .assertionArguments
  else
    match assertedType? form.name with
    | some t => assertion site t 1 form.args
    | none => assertArray site form.args

end Operator

end MapStyle
