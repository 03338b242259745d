import MapStyle.Compile.Registry
import MapStyle.Value.Json

/-!
# Constants and names

The operators `literal`, `var` and `let`.
-/

set_option autoImplicit false

namespace MapStyle

namespace Operator

variable {ν : Type} [Scalar ν]

/-- The type of a constant: an empty array takes an expected array type that does not ask for
items. -/
def literalType (t : Ty) (expected : Option Ty) : Ty :=
  match t, expected with
  | .array _ (some 0), some (.array item none) => .array item none
  | .array _ (some 0), some (.array item (some 0)) => .array item (some 0)
  | t, _ => t

/-- `["literal", value]`. -/
def literal : ParseFn ν := fun form site =>
  match form.args with
  | [o] =>
    let value := Value.ofJson o.json
    pure (.literal value (literalType value.ty site.expected))
  | args => site.fail (.literalArguments args.length)

/-- `["var", name]`. -/
def var : ParseFn ν := fun form site =>
  match form.args with
  | [o] =>
    match o.json with
    | .str name =>
      match site.scope.get? name with
      | some bound => pure (.var name bound)
      | none => site.failAt [1] (.unknownVariable name)
    | _ => site.fail .variableForm
  | _ => site.fail .variableForm

/-- Whether a name may be bound: letters, digits and underscores of the basic Latin alphabet. -/
def isBindable (name : String) : Bool := name.toList.all fun c => c.isAlphanum || c = '_'

/-- The bindings of names and values in turn, in the scope around them; a last argument on its own
is the body and binds nothing. -/
def bindings (site : Site ν) : Nat → List (Operand ν) → Compiling (List (String × Expr ν))
  | position, name :: value :: rest =>
    match name.json with
    | .str n =>
      if isBindable n then do
        let e ← value.compileAt site (position + 1) none
        let more ← bindings site (position + 2) rest
        pure ((n, e) :: more)
      else site.failAt [position] .nameCharacters
    | other => site.failAt [position] (.nameNotText other.kindName)
  | _, _ => pure []

/-- `["let", name, value, …, body]`. -/
def letIn : ParseFn ν := fun form site =>
  if form.args.length < 3 then site.fail (.letArguments form.args.length)
  else
    match form.args.getLast? with
    | none => site.fail (.letArguments 0)
    | some body => do
      let bound ← bindings site 1 form.args
      let e ← body.compile ((site.child form.args.length site.expected).binding bound)
      pure (.letIn bound e)

end Operator

end MapStyle
