import MapStyle.Context
import MapStyle.StopFunction.Table

/-!
# Functions of zoom and properties

A function takes its input from the zoom, from a property of the feature, or from both: then it has
a function for each of some zooms and blends between them.  Stops of zoom and value are regrouped by
zoom, in the order in which the zooms appear; within one zoom they keep their order.
-/

set_option autoImplicit false

namespace MapStyle

variable {ν : Type} [Scalar ν]

inductive CompiledFunction (ν : Type) where
  /-- a function of a property -/
  | source (property : String) (f : StopFunction ν)
  /-- a function of the zoom, and the zooms of its stops -/
  | camera (zooms : List ν) (f : StopFunction ν)
  /-- functions at ascending zooms, and the value where there is no zoom -/
  | composite (stops : List (ν × CompiledFunction ν)) (fallback : Option (Value ν))
      (space : ColorSpace) (spec : PropertySpec ν)

inductive FunctionKind where
  | source
  | camera
  | composite
deriving DecidableEq, Repr, Inhabited

def FunctionKind.name : FunctionKind → String
  | .source => "source"
  | .camera => "camera"
  | .composite => "composite"

/-- Adds a stop to the group of its zoom, or opens a group at the end. -/
def addToGroup (zoom : ν) (stop : Stop ν) : List (ν × List (Stop ν)) → List (ν × List (Stop ν))
  | [] => [(zoom, [stop])]
  | (z, stops) :: rest =>
    if z == zoom then (z, stops ++ [stop]) :: rest else (z, stops) :: addToGroup zoom stop rest

def Stop.zoomAndValue? (s : Stop ν) : Option (ν × Json ν) :=
  match (s.key.get? "zoom").bind Json.asNumber?, s.key.get? "value" with
  | some zoom, some value => some (zoom, value)
  | _, _ => none

/-- Regroups stops of zoom and value by zoom; `i` counts the stops before them. -/
def regroup : Nat → List (ν × List (Stop ν)) → List (Stop ν) →
    Except FunctionError (List (ν × List (Stop ν)))
  | _, groups, [] => .ok groups
  | i, groups, s :: rest =>
    match s.zoomAndValue? with
    | none => .error (.malformedCompositeKey i)
    | some (zoom, value) => regroup (i + 1) (addToGroup zoom ⟨value, s.output⟩ groups) rest

/-- The place of the first number below the one before it; `i` is the place of the first. -/
def descent? : Nat → List ν → Option Nat
  | i, x :: y :: rest => if y < x then some (i + 1) else descent? (i + 1) (y :: rest)
  | _, _ => none

namespace CompiledFunction

/-- Compiles the groups of a composite function, stopping at the first that is refused. -/
def compileGroups (compile : List (Stop ν) → Except FunctionError (CompiledFunction ν)) :
    List (ν × List (Stop ν)) → Except FunctionError (List (ν × CompiledFunction ν))
  | [] => .ok []
  | (zoom, stops) :: rest =>
    match compile stops with
    | .error e => .error e
    | .ok f =>
      match compileGroups compile rest with
      | .error e => .error e
      | .ok more => .ok ((zoom, f) :: more)

def groupParameters (p : FunctionParameters ν) (stops : List (Stop ν)) : FunctionParameters ν :=
  { p with base := none, stops := stops }

/-- Compiles a function of zoom and values, given the compilation of its groups. -/
def compileComposite (p : FunctionParameters ν) (s : PropertySpec ν) (space : ColorSpace)
    (compile : List (Stop ν) → Except FunctionError (CompiledFunction ν)) :
    Except FunctionError (CompiledFunction ν) :=
  match regroup 0 [] p.stops with
  | .error e => .error e
  | .ok groups =>
    match descent? 0 (groups.map (·.1)) with
    | some i => .error (.unsortedStops i)
    | none =>
      match compileGroups compile groups with
      | .error e => .error e
      | .ok stops =>
        match s.resolveDefault p.default with
        | .error e => .error e
        | .ok default => .ok (.composite stops (default.or (s.default.map .ofJson)) space s)

def ruleOf (p : FunctionParameters ν) (s : PropertySpec ν) : Except FunctionError FunctionType :=
  match p.typeName with
  | some name => FunctionType.ofName name
  | none => .ok (if s.supportsInterpolation then .exponential else .interval)

def spaceOf (p : FunctionParameters ν) : Except FunctionError ColorSpace :=
  match p.colorSpace with
  | none => .ok .rgb
  | some name =>
    match ColorSpace.ofName? name with
    | some space => .ok space
    | none => .error (.unknownColorSpace name)

def compileSimple (p : FunctionParameters ν) (s : PropertySpec ν) (type : FunctionType)
    (space : ColorSpace) : Except FunctionError (CompiledFunction ν) :=
  match StopFunction.make p s type space with
  | .error e => .error e
  | .ok f =>
    match p.property with
    | some property => .ok (.source property f)
    | none => .ok (.camera (p.stops.filterMap fun stop => stop.key.asNumber?) f)

/-- Compiles parameters whose keys nest at most `depth` values: without any, a first key that is an
object has no value and is refused. -/
def compileWithin : Nat → FunctionParameters ν → PropertySpec ν →
    Except FunctionError (CompiledFunction ν)
  | depth, p, s =>
    match ruleOf p s with
    | .error e => .error e
    | .ok type =>
      match spaceOf p with
      | .error e => .error e
      | .ok space =>
        if p.isComposite then
          match depth with
          | 0 => .error (.malformedCompositeKey 0)
          | depth + 1 =>
            compileComposite p s space fun stops => compileWithin depth (groupParameters p stops) s
        else compileSimple p s type space

def compile (p : FunctionParameters ν) (s : PropertySpec ν) :
    Except FunctionError (CompiledFunction ν) :=
  compileWithin (FunctionParameters.keyDepth p.stops) p s

def kind : CompiledFunction ν → FunctionKind
  | .source _ _ => .source
  | .camera _ _ => .camera
  | .composite _ _ _ _ => .composite

/-- The curve between the zooms of a function; none where the output does not depend on the zoom or
steps with it. -/
def curve? : CompiledFunction ν → Option (Curve ν)
  | .source _ _ => none
  | .camera _ f => if f.type = .exponential then some (.exponential f.base) else none
  | .composite _ _ _ _ => some .linear

def zoomStops : CompiledFunction ν → List ν
  | .source _ _ => []
  | .camera zooms _ => zooms
  | .composite stops _ _ _ => stops.map (·.1)

open scoped Scalar in
/-- The place of an input between two zooms; zero where the output steps. -/
def factor (f : CompiledFunction ν) (x lower upper : ν) : ν :=
  f.curve?.elim 0 fun c => c.factor x lower upper

def isZoomDependent (f : CompiledFunction ν) : Bool := f.kind ≠ .source

def isFeatureDependent (f : CompiledFunction ν) : Bool := f.kind ≠ .camera

mutual

def evaluate (env : Env ν) : CompiledFunction ν → Option (Value ν)
  | .source property f => f.evaluate ((env.property? property).map .ofJson)
  | .camera _ f => f.evaluate (env.globals.zoom.map .number)
  | .composite stops fallback space spec =>
    match env.globals.zoom with
    | none => fallback
    | some zoom =>
      match selectStop (stops.map (·.1)) zoom with
      | .only i => evaluateAt env stops i
      | .between i lower upper =>
        match evaluateAt env stops i with
        | none => none
        | some a =>
          match evaluateAt env stops (i + 1) with
          | none => none
          | some b => some (spec.blend space a b (Curve.linear.factor zoom lower upper))
termination_by structural f => f

def evaluateAt (env : Env ν) : List (ν × CompiledFunction ν) → Nat → Option (Value ν)
  | [], _ => none
  | (_, f) :: _, 0 => f.evaluate env
  | _ :: rest, i + 1 => evaluateAt env rest i
termination_by structural ss => ss

end

def evaluateFeatures (f : CompiledFunction ν) (globals : Globals ν) (features : List (Feature ν)) :
    List (Option (Value ν)) :=
  features.map fun feature => f.evaluate ⟨globals, some feature⟩

end CompiledFunction

end MapStyle
