import MapStyle.Compile.Operators.Assert
import MapStyle.Compile.Operators.Binding
import MapStyle.Compile.Operators.Compare
import MapStyle.Compile.Operators.Interpolate
import MapStyle.Compile.Operators.Lookup

/-!
# The usual operators

The parse functions of the style language and the names under which they are registered.
-/

set_option autoImplicit false

namespace MapStyle

inductive Builtin where
  | literal
  | var
  | letIn
  | indexOf
  | get
  | zoom
  | access
  | collator
  | resolvedLocale
  | compare
  | assert
  | interpolate
deriving DecidableEq, Repr, Inhabited

namespace Builtin

variable {ν : Type} [Scalar ν]

def parse : Builtin → ParseFn ν
  | .literal => Operator.literal
  | .var => Operator.var
  | .letIn => Operator.letIn
  | .indexOf => Operator.indexOf
  | .get => Operator.get
  | .zoom => Operator.zoom
  | .access => Operator.access
  | .collator => Operator.collator
  | .resolvedLocale => Operator.resolvedLocale
  | .compare => Operator.compare
  | .assert => Operator.assert
  | .interpolate => Operator.interpolate

def named : List (String × Builtin) :=
  [("literal", .literal), ("var", .var), ("let", .letIn), ("index-of", .indexOf),
    ("get", .get), ("zoom", .zoom), ("id", .access), ("geometry-type", .access),
    ("heatmap-density", .access), ("collator", .collator), ("resolved-locale", .resolvedLocale),
    ("==", .compare), ("!=", .compare), ("<", .compare), ("<=", .compare), (">", .compare),
    (">=", .compare), ("string", .assert), ("number", .assert), ("boolean", .assert),
    ("object", .assert), ("array", .assert), ("interpolate", .interpolate),
    ("interpolate-hcl", .interpolate), ("interpolate-lab", .interpolate)]

def ofName? (name : String) : Option Builtin := named.lookup name

end Builtin

def Registry.standard {ν : Type} [Scalar ν] : Registry ν :=
  Builtin.named.foldl (fun r (name, b) => r.register name b.parse) .empty

/-- Whether every parse function of a registry is one of the style language, under whatever name. -/
def Registry.IsStandard {ν : Type} [Scalar ν] (r : Registry ν) : Prop :=
  ∀ name parse, (name, parse) ∈ r.entries → ∃ b : Builtin, parse = b.parse

end MapStyle
