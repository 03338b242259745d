import MapStyle.Expr.Comparison
import MapStyle.Interpolation.Blend
import MapStyle.Interpolation.Curve

/-!
# Expressions

A compiled expression is a tree.  Every node has a static type, says whether its output is defined
for every input, and reads some of the context: the zoom, the feature, the heatmap density.  A
variable holds the expression that its name is bound to; that expression belongs to the `let` around
it and is not a child of the variable, but what it reads the variable reads too.
-/

set_option autoImplicit false

namespace MapStyle

structure Reads where
  zoom : Bool
  feature : Bool
  heatmapDensity : Bool
deriving DecidableEq, Repr, Inhabited

namespace Reads

def none : Reads := ⟨false, false, false⟩

def ofZoom : Reads := { none with zoom := true }

def ofFeature : Reads := { none with feature := true }

def ofHeatmapDensity : Reads := { none with heatmapDensity := true }

def union (a b : Reads) : Reads :=
  ⟨a.zoom || b.zoom, a.feature || b.feature, a.heatmapDensity || b.heatmapDensity⟩

end Reads

/-- A reading of the context without arguments. -/
inductive Accessor where
  | id
  | geometryType
  | heatmapDensity
deriving DecidableEq, Repr, Inhabited

namespace Accessor

def name : Accessor → String
  | .id => "id"
  | .geometryType => "geometry-type"
  | .heatmapDensity => "heatmap-density"

def ofName? : String → Option Accessor
  | "id" => some .id
  | "geometry-type" => some .geometryType
  | "heatmap-density" => some .heatmapDensity
  | _ => Option.none

def ty : Accessor → Ty
  | .id => .value
  | .geometryType => .string
  | .heatmapDensity => .number

def reads : Accessor → Reads
  | .id => .ofFeature
  | .geometryType => .ofFeature
  | .heatmapDensity => .ofHeatmapDensity

end Accessor

inductive Expr (ν : Type) where
  | literal (value : Value ν) (ty : Ty)
  /-- a name bound around it, and what it is bound to -/
  | var (name : String) (bound : Expr ν)
  | letIn (bindings : List (String × Expr ν)) (body : Expr ν)
  /-- the place of a needle in text or an array, from a start on -/
  | indexOf (needle haystack : Expr ν) (start : Option (Expr ν))
  /-- the property of the feature, or the member of an object -/
  | get (key : Expr ν) (object : Option (Expr ν))
  | zoom
  | access (accessor : Accessor)
  | collator (caseSensitive diacriticSensitive : Expr ν) (locale : Option (Expr ν))
  | resolvedLocale (collator : Expr ν)
  | compare (comparison : Comparison) (lhs rhs : Expr ν) (collator : Option (Expr ν))
  /-- the first argument whose value has the type -/
  | assertion (ty : Ty) (args : List (Expr ν))
  /-- an argument converted to a structured type -/
  | coercion (ty : Ty) (arg : Expr ν)
  /-- outputs at ascending labels, and what lies between them -/
  | interpolate (ty : Ty) (curve : Curve ν) (space : ColorSpace) (input : Expr ν)
      (stops : List (ν × Expr ν))

namespace Expr

variable {ν : Type}

def ty : Expr ν → Ty
  | .literal _ t => t
  | .var _ bound => bound.ty
  | .letIn _ body => body.ty
  | .indexOf _ _ _ => .number
  | .get _ _ => .value
  | .zoom => .number
  | .access a => a.ty
  | .collator _ _ _ => .collator
  | .resolvedLocale _ => .string
  | .compare _ _ _ _ => .boolean
  | .assertion t _ => t
  | .coercion t _ => t
  | .interpolate t _ _ _ _ => t

def literal? : Expr ν → Option (Value ν)
  | .literal v _ => some v
  | _ => none

/-- The expressions that belong to a node, in order. -/
def children : Expr ν → List (Expr ν)
  | .literal _ _ => []
  | .var _ _ => []
  | .letIn bindings body => bindings.map (·.2) ++ [body]
  | .indexOf needle haystack start => needle :: haystack :: start.toList
  | .get key object => key :: object.toList
  | .zoom => []
  | .access _ => []
  | .collator case diacritic locale => case :: diacritic :: locale.toList
  | .resolvedLocale c => [c]
  | .compare _ lhs rhs c => lhs :: rhs :: c.toList
  | .assertion _ args => args
  | .coercion _ arg => [arg]
  | .interpolate _ _ _ input stops => input :: stops.map (·.2)

mutual

/-- Whether the output of an expression is defined for every input. -/
def outputDefined : Expr ν → Bool
  | .literal _ _ => true
  | .letIn _ body => body.outputDefined
  | .compare _ _ _ _ => true
  | .assertion _ args => allDefined args
  | .interpolate _ _ _ _ stops => stopsDefined stops
  | .var _ _ => false
  | .indexOf _ _ _ => false
  | .get _ _ => false
  | .zoom => false
  | .access _ => false
  | .collator _ _ _ => false
  | .resolvedLocale _ => false
  | .coercion _ _ => false
termination_by structural e => e

def allDefined : List (Expr ν) → Bool
  | [] => true
  | e :: es => e.outputDefined && allDefined es
termination_by structural es => es

def stopsDefined : List (ν × Expr ν) → Bool
  | [] => true
  | (_, e) :: rest => e.outputDefined && stopsDefined rest
termination_by structural ss => ss

end

mutual

/-- What an expression reads, its children included. -/
def subtreeReads : Expr ν → Reads
  | .literal _ _ => .none
  | .var _ bound => bound.subtreeReads
  | .letIn bindings body => (bindingsRead bindings).union body.subtreeReads
  | .indexOf needle haystack start =>
    (needle.subtreeReads.union haystack.subtreeReads).union (optionReads start)
  | .get key none => Reads.ofFeature.union key.subtreeReads
  | .get key (some object) => key.subtreeReads.union object.subtreeReads
  | .zoom => .ofZoom
  | .access a => a.reads
  | .collator case diacritic locale =>
    (case.subtreeReads.union diacritic.subtreeReads).union (optionReads locale)
  | .resolvedLocale c => c.subtreeReads
  | .compare _ lhs rhs c => (lhs.subtreeReads.union rhs.subtreeReads).union (optionReads c)
  | .assertion _ args => allRead args
  | .coercion _ arg => arg.subtreeReads
  | .interpolate _ _ _ input stops => input.subtreeReads.union (stopsRead stops)
termination_by structural e => e

def optionReads : Option (Expr ν) → Reads
  | none => .none
  | some e => e.subtreeReads
termination_by structural e => e

def allRead : List (Expr ν) → Reads
  | [] => .none
  | e :: es => e.subtreeReads.union (allRead es)
termination_by structural es => es

def bindingsRead : List (String × Expr ν) → Reads
  | [] => .none
  | (_, e) :: rest => e.subtreeReads.union (bindingsRead rest)
termination_by structural bs => bs

def stopsRead : List (ν × Expr ν) → Reads
  | [] => .none
  | (_, e) :: rest => e.subtreeReads.union (stopsRead rest)
termination_by structural ss => ss

end

/-- What a node itself reads, its children excluded. -/
def reads : Expr ν → Reads
  | .var _ bound => bound.subtreeReads
  | .get _ none => .ofFeature
  | .zoom => .ofZoom
  | .access a => a.reads
  | _ => .none

def isConstant (e : Expr ν) : Bool := e.subtreeReads = .none

def isZoomDependent (e : Expr ν) : Bool := e.subtreeReads.zoom

def isFeatureDependent (e : Expr ν) : Bool := e.subtreeReads.feature

end Expr

end MapStyle
