import MapStyle.Compile.Registry

/-!
# Reading and searching

The operators `get`, `zoom`, `index-of` and the accessors of the feature and the heatmap.
-/

set_option autoImplicit false

namespace MapStyle

namespace Operator

variable {ν : Type}

/-- `["get", key]` and `["get", key, object]`. -/
def get : ParseFn ν := fun form site =>
  match form.args with
  | [key] => do
    let key ← key.compileAt site 1 (some .string)
    pure (.get key none)
  | [key, object] => do
    let key ← key.compileAt site 1 (some .string)
    let object ← object.compileAt site 2 (some .object)
    pure (.get key (some object))
  | args => site.fail (.getArguments args.length)

/-- `["zoom"]`. -/
def zoom : ParseFn ν := fun form site =>
  match form.args with
  | [] => pure .zoom
  | args => site.fail (.noArguments args.length)

/-- `["id"]`, `["geometry-type"]` and `["heatmap-density"]`. -/
def access : ParseFn ν := fun form site =>
  match Accessor.ofName? form.name with
  | none => site.fail (.unknownAccessor form.name)
  | some a =>
    match form.args with
    | [] => pure (.access a)
    | args => site.fail (.noArguments args.length)

def needleTypes : List Ty := [.boolean, .string, .number, .null, .value]

/-- Compiles needle and haystack, both in any case, and checks the needle's type. -/
def needleAndHaystack (site : Site ν) (needle haystack : Operand ν) :
    Compiling (Expr ν × Expr ν) := do
  let (needle, haystack) ← Compiling.both (needle.compileAt site 1 (some .value))
    (haystack.compileAt site 2 (some .value))
  if needle.ty.isAmong needleTypes then pure (needle, haystack)
  else site.fail (.needleType needle.ty)

/-- `["index-of", needle, haystack]` and `["index-of", needle, haystack, start]`. -/
def indexOf : ParseFn ν := fun form site =>
  match form.args with
  | [needle, haystack] => do
    let (needle, haystack) ← needleAndHaystack site needle haystack
    pure (.indexOf needle haystack none)
  | [needle, haystack, start] => do
    let (needle, haystack) ← needleAndHaystack site needle haystack
    let start ← start.compileAt site 3 (some .number)
    pure (.indexOf needle haystack (some start))
  | args => site.fail (.indexOfArguments args.length)

end Operator

end MapStyle
