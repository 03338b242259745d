import MapStyle.Compile.Registry

/-!
# Comparing

The six comparisons, and the operators `collator` and `resolved-locale`.
-/

set_option autoImplicit false

namespace MapStyle

namespace Operator

variable {ν : Type}

/-- An operand of an order whose type is not known, where the other one's is, is checked for that
type when it is evaluated. -/
def checkedAgainst (e other : Expr ν) : Expr ν :=
  if e.ty = .value ∧ other.ty ≠ .value then .assertion other.ty [e] else e

def comparisonOperand (c : Comparison) (site : Site ν) (position : Nat) (o : Operand ν) :
    Compiling (Expr ν) := do
  let e ← o.compileAt site position (some .value)
  if c.supports e.ty then pure e else site.failAt [position] (.comparisonType c e.ty)

def areComparable (lhs rhs : Ty) : Bool :=
  lhs.kind == rhs.kind || lhs == .value || rhs == .value

def mayBeText (t : Ty) : Bool := t == .string || t == .value

def comparisonOperands (c : Comparison) (site : Site ν) (lhs rhs : Operand ν) :
    Compiling (Expr ν × Expr ν) := do
  let lhs ← comparisonOperand c site 1 lhs
  let rhs ← comparisonOperand c site 2 rhs
  if areComparable lhs.ty rhs.ty then pure (lhs, rhs)
  else site.fail (.incomparable lhs.ty rhs.ty)

def comparisonNode (c : Comparison) (lhs rhs : Expr ν) (through : Option (Expr ν)) : Expr ν :=
  if c.isOrder then .compare c (checkedAgainst lhs rhs) (checkedAgainst rhs lhs) through
  else .compare c lhs rhs through

/-- `[comparison, lhs, rhs]` and `[comparison, lhs, rhs, collator]`. -/
def compare : ParseFn ν := fun form site =>
  match Comparison.ofSymbol? form.name with
  | none => site.fail .unknownComparison
  | some c =>
    match form.args with
    | [lhs, rhs] => do
      let (lhs, rhs) ← comparisonOperands c site lhs rhs
      pure (comparisonNode c lhs rhs none)
    | [lhs, rhs, through] => do
      let (lhs, rhs) ← comparisonOperands c site lhs rhs
      if mayBeText lhs.ty || mayBeText rhs.ty then
        let through ← through.compileAt site 3 (some .collator)
        pure (comparisonNode c lhs rhs (some through))
      else site.fail .collatorOnOthers
    | _ => site.fail .comparisonArguments

/-- The operand of an option, or of false if it is not given. -/
def flag (form : Form ν) (members : List (String × Operand ν)) (key : String) : Operand ν :=
  (members.lookup key).getD (form.constant (.bool false))

/-- `["collator", options]`. -/
def collator : ParseFn ν := fun form site =>
  match form.args with
  | [o] =>
    match o.json with
    | .obj _ => do
      let case ← (flag form o.members "case-sensitive").compileAt site 1 (some .boolean)
      let diacritic ← (flag form o.members "diacritic-sensitive").compileAt site 1 (some .boolean)
      match o.members.lookup "locale" with
      | none => pure (.collator case diacritic none)
      | some locale =>
        if locale.json.isNull then pure (.collator case diacritic none)
        else do
          let locale ← locale.compileAt site 1 (some .string)
          pure (.collator case diacritic (some locale))
    | _ => site.fail .collatorOptions
  | _ => site.fail .oneArgument

/-- `["resolved-locale", collator]`. -/
def resolvedLocale : ParseFn ν := fun form site =>
  match form.args with
  | [o] => do
    let c ← o.compileAt site 1 (some .collator)
    pure (.resolvedLocale c)
  | _ => site.fail .oneArgument

end Operator

end MapStyle
