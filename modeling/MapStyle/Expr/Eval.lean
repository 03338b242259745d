import MapStyle.Context
import MapStyle.Expr.Basic
import MapStyle.Expr.EvalError
import MapStyle.Expr.Search
import MapStyle.Interpolation.Stops

/-!
# Evaluation

`Expr.eval` gives the value of an expression in a context, or the error at which its evaluation
stops.  What the operators do to values that are already there is said by functions of their own.
-/

set_option autoImplicit false

namespace MapStyle

open scoped Scalar

variable {ν : Type}

abbrev Outcome (ν : Type) := Except EvalError (Value ν)

section Operations

variable [Scalar ν]

def Value.isNeedle (v : Value ν) : Bool := v.isShapedAs [.boolean, .string, .number, .null]

/-- The place of a needle in a value that can be searched; minus one if it is not there. -/
def Value.indexOf (needle haystack : Value ν) (start : ν) : Outcome ν :=
  let place (i : Option Nat) : Outcome ν := .ok (.number (i.elim (-1) fun i => Scalar.ofInt i))
  match haystack with
  | .string s => place (indexInText s (searchText needle) start)
  | .array items => place (indexInItems items needle start)
  | other => .error (.haystack other.ty)

/-- A member of an object; other values have none. -/
def Value.member (key : String) : Value ν → Value ν
  | .object members => (members.lookup key).getD .null
  | _ => .null

def Accessor.read (a : Accessor) (env : Env ν) : Value ν :=
  match a with
  | .id => (env.feature.bind (·.id)).elim .null .ofJson
  | .geometryType => (env.feature.bind (·.geometry)).elim .null fun g => .string g.name
  | .heatmapDensity => .number (env.globals.heatmapDensity.getD 0)

/-- A value converted to a structured type, if it can be. -/
def Value.coerce? (t : Ty) (v : Value ν) : Option (Value ν) :=
  match t with
  | .color =>
    match v with
    | .color c => some (.color c)
    | .string s => (Color.ofText? s).map .color
    | _ => none
  | .padding =>
    match v with
    | .padding p => some (.padding p)
    | v => (Padding.ofJson? v.toJson).map .padding
  | .numberArray =>
    match v with
    | .numberArray xs => some (.numberArray xs)
    | v => (numbers? v.toJson).map .numberArray
  | .colorArray =>
    match v with
    | .colorArray cs => some (.colorArray cs)
    | v => (colors? v.toJson).map .colorArray
  | .formatted =>
    match v with
    | .formatted f => some (.formatted f)
    | v => some (.formatted (.ofText v.text))
  | .resolvedImage =>
    match v with
    | .image i => some (.image i)
    | v => some (.image (.ofName v.text))
  | _ => none

def Value.shown : Value ν → String
  | .string s => s
  | v => v.toJson.render

def Value.coerce (t : Ty) (v : Value ν) : Outcome ν :=
  match v.coerce? t with
  | some w => .ok w
  | none => .error (.coercion t v.shown)

/-- Whether values of these types may be put in order where their types were not known before. -/
def Ty.areOrdered (lhs rhs : Ty) : Bool :=
  lhs.kind == rhs.kind && (lhs == .string || lhs == .number)

def Value.resolvedLocale : Value ν → Outcome ν
  | .collator c => .ok (.string c.engine.resolvedLocale)
  | v => .error (.notCollator v.ty)

def Comparison.applyCollator (c : Comparison) (s t : String) : Value ν → Outcome ν
  | .collator k => .ok (.boolean (c.holds (k.engine.compare s t)))
  | v => .error (.notCollator v.ty)

/-- What becomes of the comparison of two values, where `through` is the outcome of the collator if
there is one.  Only text is compared through it. -/
def Comparison.conclude (c : Comparison) (a b : Value ν) (through : Option (Outcome ν)) :
    Outcome ν :=
  match through, a, b with
  | some (.error e), .string _, .string _ => .error e
  | some (.ok k), .string s, .string t => c.applyCollator s t k
  | _, a, b => .ok (.boolean (c.apply a b))

end Operations

variable [Platform ν]

def Value.makeCollator (caseSensitive diacriticSensitive locale : Value ν) : Value ν :=
  let case := caseSensitive.asBool?.getD false
  let diacritic := diacriticSensitive.asBool?.getD false
  let locale := locale.asString?
  .collator (.withEngine case diacritic locale
    (Platform.engine ν locale (.ofFlags case diacritic)))

namespace Expr

def isUntyped (e : Expr ν) : Bool := e.ty == .value

mutual

def eval (env : Env ν) : Expr ν → Outcome ν
  | .literal v _ => .ok v
  | .var _ bound => bound.eval env
  | .letIn _ body => body.eval env
  | .indexOf needle haystack start =>
    match needle.eval env with
    | .error e => .error e
    | .ok needle =>
      match haystack.eval env with
      | .error e => .error e
      | .ok haystack =>
        if needle.isNeedle then
          match evalOption env start with
          | .error e => .error e
          | .ok start => needle.indexOf haystack (start.asNumber?.getD 0)
        else .error (.needle needle.ty)
  | .get key none =>
    match key.eval env with
    | .error e => .error e
    | .ok key => .ok ((env.property? (key.asString?.getD "")).elim .null .ofJson)
  | .get key (some object) =>
    match key.eval env with
    | .error e => .error e
    | .ok key =>
      match object.eval env with
      | .error e => .error e
      | .ok object => .ok (object.member (key.asString?.getD ""))
  | .zoom =>
    match env.globals.zoom with
    | some z => .ok (.number z)
    | none => .error .zoomMissing
  | .access a => .ok (a.read env)
  | .collator case diacritic locale =>
    match case.eval env with
    | .error e => .error e
    | .ok case =>
      match diacritic.eval env with
      | .error e => .error e
      | .ok diacritic =>
        match evalOption env locale with
        | .error e => .error e
        | .ok locale => .ok (.makeCollator case diacritic locale)
  | .resolvedLocale c =>
    match c.eval env with
    | .error e => .error e
    | .ok c => c.resolvedLocale
  | .compare c lhs rhs through =>
    match lhs.eval env with
    | .error e => .error e
    | .ok a =>
      match rhs.eval env with
      | .error e => .error e
      | .ok b =>
        if c.isOrder && (lhs.isUntyped || rhs.isUntyped) && !a.ty.areOrdered b.ty then
          .error (.operands c a.ty b.ty)
        else
          c.conclude a b (evalThrough env through)
  | .assertion t args => evalAssertion env t .null args
  | .coercion t arg =>
    match arg.eval env with
    | .error e => .error e
    | .ok v => v.coerce t
  | .interpolate _ curve space input stops =>
    if stops.length ≤ 1 then evalOutput env stops 0
    else
      match input.eval env with
      | .error e => .error e
      | .ok input =>
        let x := input.asNumber?.getD Scalar.nan
        match selectStop (stops.map (·.1)) x with
        | .only i => evalOutput env stops i
        | .between i lower upper =>
          match evalOutput env stops i with
          | .error e => .error e
          | .ok a =>
            match evalOutput env stops (i + 1) with
            | .error e => .error e
            | .ok b => .ok (a.blend space b (curve.factor x lower upper))
termination_by structural e => e

/-- The value of an expression that may be absent, and then is null. -/
def evalOption (env : Env ν) : Option (Expr ν) → Outcome ν
  | none => .ok .null
  | some e => e.eval env
termination_by structural e => e

/-- The outcome of an expression, if there is one. -/
def evalThrough (env : Env ν) : Option (Expr ν) → Option (Outcome ν)
  | none => none
  | some e => some (e.eval env)
termination_by structural e => e

/-- The first value that has the type; `last` is the type of the one before. -/
def evalAssertion (env : Env ν) (t last : Ty) : List (Expr ν) → Outcome ν
  | [] => .error (.assertion t last)
  | e :: es =>
    match e.eval env with
    | .error err => .error err
    | .ok v => if t.accepts v.ty then .ok v else evalAssertion env t v.ty es
termination_by structural es => es

def evalOutput (env : Env ν) : List (ν × Expr ν) → Nat → Outcome ν
  | [], _ => .ok .null
  | (_, e) :: _, 0 => e.eval env
  | _ :: rest, i + 1 => evalOutput env rest i
termination_by structural ss => ss

end

end Expr

end MapStyle
