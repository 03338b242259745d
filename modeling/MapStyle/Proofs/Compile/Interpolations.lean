import Mathlib.Data.List.Forall2
import MapStyle.Proofs.Compile.Documents
import MapStyle.Proofs.Compile.Siblings
import MapStyle.Proofs.Number.Order

/-!
# Compiling interpolations

What the documents of an interpolation of numbers or colors compile to: literal outputs, an input
that is the zoom or a property, and interpolations as the outputs of another one.
-/

set_option autoImplicit false

namespace MapStyle

variable {ν : Type} [Platform ν]

theorem Reads.eq_none_of_union {r s : Reads} (nothing : r.union s = .none) : r = .none := by
  cases r
  simp only [union, none, Reads.mk.injEq, Bool.or_eq_false_iff] at nothing ⊢
  exact ⟨nothing.1.1, nothing.2.1.1, nothing.2.2.1⟩

def ColorSpace.operator : ColorSpace → String
  | .rgb => "interpolate"
  | .hcl => "interpolate-hcl"
  | .lab => "interpolate-lab"

theorem ColorSpace.spaceOf_operator (space : ColorSpace) :
    Operator.spaceOf space.operator = space := by
  cases space <;> rfl

/-- Whether values of a type blend in a space: numbers in that of the plain operator. -/
inductive Ty.BlendsIn : Ty → ColorSpace → Prop
  | number : BlendsIn .number .rgb
  | color (space : ColorSpace) : BlendsIn .color space

def Expr.getOf (name : String) : Expr ν := .get (.literal (.string name) .string) none

namespace Json

omit [Platform ν] in
def interpolation (space : ColorSpace) (curve input : Json ν) (stops : List (Json ν × Json ν)) :
    Json ν :=
  .arr (.str space.operator :: curve :: input :: Operator.inTurn stops)

omit [Platform ν] in
def getOf (name : String) : Json ν := .arr [.str "get", .str name]

/-- A document compiles to an expression wherever a value of a type is expected. -/
def CompilesTo (j : Json ν) (t : Ty) (e : Expr ν) : Prop :=
  ∀ (path : List Nat) (scope : Scope ν),
    (Compiler.ofRegistry .standard).compile j ⟨path, scope, some t⟩ = pure e

end Json

namespace Compiler

variable {r : Registry ν} {t : Ty} {e : Expr ν}

theorem foldConstant_of_not_isConstant (site : Site ν) (reads : e.isConstant = false) :
    foldConstant site e = pure e := by
  simp [foldConstant, Expr.isFoldable, reads]

/-- What has the expected type and reads the context is left as it is. -/
theorem settle_of_reads (typed : t = .number ∨ t = .color) (type : e.ty = t)
    (reads : e.isConstant = false) (path : List Nat) (scope : Scope ν) :
    (ofRegistry r).settle ⟨path, scope, some t⟩ e = pure e := by
  have annotated : annotate ⟨path, scope, some t⟩ t e = pure e := by
    rw [annotate, type]
    rcases typed with rfl | rfl <;> rfl
  show (annotate ⟨path, scope, some t⟩ t e >>= foldConstant ⟨path, scope, some t⟩) = pure e
  rw [annotated]
  exact foldConstant_of_not_isConstant _ reads

theorem compile_scalar (found : r.get? "literal" = some Operator.literal) {j : Json ν}
    (scalar : (ofRegistry r).operand j = (ofRegistry r).scalar j) (site : Site ν) :
    (ofRegistry r).compile j site =
      (ofRegistry r).settle site
        (.literal (.ofJson j) (Operator.literalType (Value.ofJson j).ty site.expected)) := by
  have found : (ofRegistry r).registry.get? "literal" = some Operator.literal := found
  rw [compile, scalar]
  simp only [Compiler.scalar, apply, found]
  rfl

end Compiler

namespace Json

open Compiler

theorem compilesTo_number {j : Json ν} {x : ν} (number : j.asNumber? = some x) :
    j.CompilesTo .number (.literal (.number x) .number) := by
  intro path scope
  cases j with
  | int n =>
    obtain rfl := Option.some.inj number
    rw [compile_scalar (Registry.get?_standard (b := .literal) rfl) rfl]
    rfl
  | float y =>
    obtain rfl := Option.some.inj number
    rw [compile_scalar (Registry.get?_standard (b := .literal) rfl) rfl]
    rfl
  | _ => cases number

theorem compilesTo_color {j : Json ν} {c : Color ν} (named : Color.ofJson? j = some c) :
    j.CompilesTo .color (.literal (.color c) .color) := by
  intro path scope
  cases j with
  | str s =>
    have converted : (Expr.coercion .color (.literal (.string s) .string)).eval .blank =
        Except.ok (Value.color c) := by
      have found : Color.ofText? s = some c := named
      simp [Expr.eval, Value.coerce, Value.coerce?, found]
    rw [compile_scalar (Registry.get?_standard (b := .literal) rfl) rfl]
    show foldConstant ⟨path, scope, some .color⟩
      (.coercion .color (.literal (.string s) .string)) = _
    simp only [foldConstant, converted]
    rfl
  | _ => cases named

theorem compilesTo_text (s : String) :
    (Json.str s : Json ν).CompilesTo .string (.literal (.string s) .string) := by
  intro path scope
  rw [compile_scalar (Registry.get?_standard (b := .literal) rfl) rfl]
  rfl

theorem compilesTo_zoom : (Json.arr [.str "zoom"] : Json ν).CompilesTo .number .zoom := by
  intro path scope
  rw [compile_form (Registry.get?_standard (b := .zoom) rfl)]
  show ((pure .zoom : Compiling (Expr ν)) >>= (ofRegistry .standard).settle _) = _
  exact settle_of_reads (r := .standard) (e := .zoom) (Or.inl rfl) rfl rfl path scope

theorem compilesTo_getOf {t : Ty} {e : Expr ν} (name : String)
    (annotated : ∀ site : Site ν, annotate site t (.getOf name) = pure e)
    (reads : e.isConstant = false) : (getOf name : Json ν).CompilesTo t e := by
  intro path scope
  rw [getOf, compile_form (Registry.get?_standard (b := .get) rfl)]
  have key : ((ofRegistry .standard).operand (.str name)).compileAt ⟨path, scope, some t⟩ 1
      (some .string) = pure (.literal (.string name) .string : Expr ν) :=
    compilesTo_text name (path ++ [1]) scope
  simp only [List.map_cons, List.map_nil, Builtin.parse, Operator.get, key]
  show (annotate ⟨path, scope, some t⟩ t (.getOf name) >>=
    foldConstant ⟨path, scope, some t⟩) = pure e
  rw [annotated]
  exact foldConstant_of_not_isConstant _ reads

theorem compilesTo_get (name : String) :
    (getOf name : Json ν).CompilesTo .number (.assertion .number [.getOf name]) :=
  compilesTo_getOf name (fun _ => rfl) rfl

end Json

namespace Operator

variable {t : Ty} {site : Site ν}

/-- Labels that ascend, and outputs that compile for one type: the stops of an interpolation. -/
theorem stops_eq [Scalar.Ordered ν] {pairs : List (Operand ν × Operand ν)}
    {compiled : List (ν × Expr ν)}
    (each : List.Forall₂ (fun p s => p.1.json.asNumber? = some s.1 ∧
      ∀ position, p.2.compileAt site position (some t) = pure s.2) pairs compiled)
    (ascending : (compiled.map (·.1)).Pairwise (· < ·)) (position : Nat) (last : Option ν)
    (above : ∀ l ∈ last, ∀ s ∈ compiled, l < s.1) :
    stops site position last (some t) (inTurn pairs) = pure (compiled, some t) := by
  induction each generalizing position last with
  | nil => rfl
  | @cons p s pairs rest entry later ih =>
    obtain ⟨label, output⟩ := p
    obtain ⟨number, outputCompiles⟩ := entry
    have ordered : (last.any fun l => decide (s.1 ≤ l)) = false := by
      cases last with
      | none => rfl
      | some l => simpa using Scalar.not_le_of_lt (above l rfl s (by simp))
    obtain ⟨first, ascending⟩ := List.pairwise_cons.mp ascending
    have more := ih ascending (position + 2) (some s.1) (by
      rintro l ⟨⟩ s' mem
      exact first s'.1 (List.mem_map_of_mem mem))
    simp only at number outputCompiles
    simp only [inTurn_cons, stops, number, ordered, outputCompiles]
    show (stops site (position + 2) (some s.1) (some t) (inTurn pairs) >>= _) = _
    rw [more]
    rfl

theorem interpolate_eq [Scalar.Ordered ν] {space : ColorSpace} {constant : Json ν → Operand ν}
    {curveForm inputForm : Operand ν} {curve : Curve ν} {input : Expr ν}
    (shaped : Operator.curve [curveForm] = .ok curve) (expected : site.expected = some t)
    (outputs : outputType space (some t) = some t) (blends : t.isInterpolatable = true)
    (isInput : inputForm.compileAt site 2 (some .number) = pure input)
    {pairs : List (Operand ν × Operand ν)} {compiled : List (ν × Expr ν)}
    (nonempty : pairs ≠ [])
    (each : List.Forall₂ (fun p s => p.1.json.asNumber? = some s.1 ∧
      ∀ position, p.2.compileAt site position (some t) = pure s.2) pairs compiled)
    (ascending : (compiled.map (·.1)).Pairwise (· < ·)) :
    interpolate ⟨space.operator, curveForm :: inputForm :: inTurn pairs, constant⟩ site =
      pure (.interpolate t curve space input compiled) := by
  rw [interpolate_eq_andThen shaped nonempty, isInput, space.spaceOf_operator, expected, outputs]
  show (stops site 3 none (some t) (inTurn pairs) >>= _) = _
  rw [stops_eq each ascending 3 none nofun]
  show (if t.isInterpolatable = true then pure _ else site.fail _) = _
  rw [if_pos blends]
  rfl

end Operator

namespace Json

open Compiler

/-- An interpolation of an input that reads the context, between ascending labels and outputs that
compile for a type that blends in its space. -/
theorem compilesTo_interpolation [Scalar.Ordered ν] {t : Ty} {space : ColorSpace}
    (blends : t.BlendsIn space) {curveForm inputForm : Json ν} {curve : Curve ν} {input : Expr ν}
    (shaped : Operator.curve [(ofRegistry .standard).operand curveForm] = .ok curve)
    (isInput : inputForm.CompilesTo .number input) (reads : input.isConstant = false)
    {pairs : List (Json ν × Json ν)} {stops : List (ν × Expr ν)} (nonempty : pairs ≠ [])
    (each : List.Forall₂ (fun p s => p.1.asNumber? = some s.1 ∧ p.2.CompilesTo t s.2) pairs stops)
    (ascending : (stops.map (·.1)).Pairwise (· < ·)) :
    (interpolation space curveForm inputForm pairs).CompilesTo t
      (.interpolate t curve space input stops) := by
  intro path scope
  have named : Builtin.named.reverse.lookup space.operator = some .interpolate := by
    cases space <;> rfl
  have typed : t = .number ∨ t = .color := by cases blends <;> simp
  have outputs : Operator.outputType space (some t) = some t := by
    cases blends with
    | number => rfl
    | color => cases space <;> rfl
  have interpolatable : t.isInterpolatable = true := by cases blends <;> rfl
  have readsStill : (Expr.interpolate t curve space input stops).isConstant = false := by
    have reads : input.subtreeReads ≠ .none := of_decide_eq_false reads
    exact decide_eq_false fun nothing => reads (Reads.eq_none_of_union nothing)
  have compiledInput : ((ofRegistry .standard).operand inputForm).compileAt ⟨path, scope, some t⟩ 2
      (some .number) = pure input := isInput (path ++ [2]) scope
  have parsed : Operator.interpolate ⟨space.operator,
      (ofRegistry .standard).operand curveForm :: (ofRegistry .standard).operand inputForm ::
        Operator.inTurn (pairs.map fun p =>
          ((ofRegistry .standard).operand p.1, (ofRegistry .standard).operand p.2)),
      (ofRegistry .standard).scalar⟩ ⟨path, scope, some t⟩ =
        pure (.interpolate t curve space input stops) := by
    refine Operator.interpolate_eq shaped rfl outputs interpolatable compiledInput
      (by simpa using nonempty) ?_ ascending
    rw [List.forall₂_map_left_iff]
    refine each.imp fun p s entry => ⟨?_, fun position => entry.2 (path ++ [position]) scope⟩
    rw [operand_json]
    exact entry.1
  rw [interpolation, compile_form (Registry.get?_standard named), List.map_cons, List.map_cons,
    Operator.inTurn_map]
  show (Operator.interpolate _ _ >>= _) = _
  rw [parsed]
  exact settle_of_reads typed rfl readsStill path scope

end Json

end MapStyle
