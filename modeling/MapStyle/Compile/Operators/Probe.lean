import MapStyle.Compile.Registry

/-!
# Looking into a compilation

The probe is no operator of the style language and stands in no registry of the usual ones: it is
one that a user of the library registers in order to look into a compilation.  It compiles its
arguments from the second on and never has a result, but remarks, at a place of its own below its
site, on what it was given.
-/

set_option autoImplicit false

namespace MapStyle

namespace Operator

variable {ν : Type}

/-- Compiles operands of consecutive positions for no type and counts those with a result. -/
def countCompiled (site : Site ν) : Nat → List (Operand ν) → Compiling Nat
  | _, [] => pure 0
  | position, o :: rest => do
    let e? ← (o.compileAt site position none).attempt
    let n ← countCompiled site (position + 1) rest
    pure (if e?.isSome then n + 1 else n)

def probePlace : List Nat := [7, 8]

def bracketed (path : List Nat) : String := "[" ++ ", ".intercalate (path.map toString) ++ "]"

/-- `[name, word, argument, …]`. -/
def probe : ParseFn ν := fun form site => do
  let word := (form.args.head?.bind fun o => o.json.asString?).getD ""
  let n ← countCompiled site 2 (form.args.drop 1)
  site.failAt probePlace (.remark ("probe " ++ word ++ " path=" ++ bracketed site.path ++
    " expected=" ++ site.expected.elim "none" Ty.name ++
    " bound=" ++ (if site.scope.has word then "true" else "false") ++
    " compiled=" ++ toString n))

end Operator

end MapStyle
