import MapStyle.Compile.Standard
import MapStyle.Expr.Eval

/-!
# Compiling

A compiler turns documents into expressions.  An array is a form and goes to the parse function of
its operator; a scalar stands for a `literal` form around it.  The result is made to fit the
expected type, by an assertion or a conversion where its own type is looser, and then finished: the
usual finish evaluates what reads nothing from the context and puts the value in its place.

Every document becomes an operand by recursion on it, so that compiling the arguments of a form
never leaves the document that the form stands in.
-/

set_option autoImplicit false

namespace MapStyle

variable {ν : Type} [Platform ν]

namespace Ty

/-- Whether a loosely typed expression is checked for the expected type when it is evaluated. -/
def isAsserted (expected actual : Ty) : Bool :=
  actual == .value &&
    match expected with
    | .string | .number | .boolean | .object | .array _ _ => true
    | _ => false

def isArray : Ty → Bool
  | .array _ _ => true
  | _ => false

/-- Whether an expression is converted to the expected type when it is evaluated. -/
def isCoerced (expected actual : Ty) : Bool :=
  match expected with
  | .color | .formatted | .resolvedImage => actual == .value || actual == .string
  | .padding | .numberArray => actual == .value || actual == .number || actual.isArray
  | .colorArray => actual == .value || actual == .string || actual.isArray
  | _ => false

end Ty

def annotate (site : Site ν) (expected : Ty) (e : Expr ν) : Compiling (Expr ν) :=
  if expected.isAsserted e.ty then pure (.assertion expected [e])
  else if expected.isCoerced e.ty then pure (.coercion expected e)
  else if expected.accepts e.ty then pure e
  else site.fail (.typeMismatch expected e.ty)

/-- Whether an expression is evaluated when it is compiled: it reads nothing, and is neither a
constant already nor an image, which is looked up later. -/
def Expr.isFoldable (e : Expr ν) : Bool :=
  e.literal?.isNone && e.ty != .resolvedImage && e.isConstant

/-- Puts the value of an expression that reads nothing in its place. -/
def foldConstant (site : Site ν) (e : Expr ν) : Compiling (Expr ν) :=
  if e.isFoldable then
    match e.eval .blank with
    | .ok v => pure (.literal v e.ty)
    | .error err => site.fail (.evaluation err)
  else pure e

/-- The operators of a compilation, and what is done to every expression in the end. -/
structure Compiler (ν : Type) where
  registry : Registry ν
  finish : Site ν → Expr ν → Compiling (Expr ν)

namespace Compiler

def ofRegistry (r : Registry ν) : Compiler ν := ⟨r, foldConstant⟩

def withoutFolding (r : Registry ν) : Compiler ν := ⟨r, fun _ e => pure e⟩

def settle (c : Compiler ν) (site : Site ν) (e : Expr ν) : Compiling (Expr ν) :=
  match site.expected with
  | some expected => do
    let e ← annotate site expected e
    c.finish site e
  | none => c.finish site e

def apply (c : Compiler ν) (form : Form ν) (site : Site ν) : Compiling (Expr ν) :=
  match c.registry.get? form.name with
  | none => site.failAt [0] (.unknownOperator form.name)
  | some parse => do
    let e ← parse form site
    c.settle site e

/-- A scalar inside the form that it stands for.  To compile it there is to compile that form again,
which never ends. -/
def quoted (j : Json ν) : Operand ν := ⟨j, fun _ => .endless, []⟩

def scalar (c : Compiler ν) (j : Json ν) : Operand ν :=
  ⟨j, fun site => c.apply ⟨"literal", [quoted j], quoted⟩ site, []⟩

def form (c : Compiler ν) (operands : List (Operand ν)) (site : Site ν) : Compiling (Expr ν) :=
  match operands with
  | [] => site.fail .emptyArray
  | head :: args =>
    match head.json with
    | .str name => c.apply ⟨name, args, c.scalar⟩ site
    | other => site.failAt [0] (.operatorNotText other.kindName)

mutual

def operand (c : Compiler ν) : Json ν → Operand ν
  | .arr items => ⟨.arr items, c.form (c.operands items), []⟩
  | .obj members => ⟨.obj members, fun site => site.fail .bareObject, c.memberOperands members⟩
  | .null => c.scalar .null
  | .bool b => c.scalar (.bool b)
  | .int n => c.scalar (.int n)
  | .float x => c.scalar (.float x)
  | .str s => c.scalar (.str s)
termination_by structural j => j

def operands (c : Compiler ν) : List (Json ν) → List (Operand ν)
  | [] => []
  | j :: rest => c.operand j :: c.operands rest
termination_by structural js => js

def memberOperands (c : Compiler ν) : List (String × Json ν) → List (String × Operand ν)
  | [] => []
  | (k, j) :: rest => (k, c.operand j) :: c.memberOperands rest
termination_by structural ms => ms

end

def compile (c : Compiler ν) (j : Json ν) (site : Site ν) : Compiling (Expr ν) :=
  (c.operand j).compile site

end Compiler

/-- The result of a compilation that starts without diagnostics: an expression if there is one and
nothing was found wrong, and otherwise what was.  The empty list stands for one that never
returns. -/
def Compiling.toExcept {α : Type} (c : Compiling α) : Except (List Diagnostic) α :=
  match c.run [] with
  | some (some a, []) => .ok a
  | some (_, ds) => .error ds
  | none => .error []

def compileExpr (r : Registry ν) (j : Json ν) (expected : Option Ty) :
    Except (List Diagnostic) (Expr ν) :=
  ((Compiler.ofRegistry r).compile j (.root expected)).toExcept

end MapStyle
