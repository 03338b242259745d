import MapStyle.Number.Float
import MapStyle.Proofs.Compile.Interpolations
import MapStyle.Proofs.StopFunction.Exponential
import MapStyle.StyleExpression

/-!
# Exponential functions as interpolations

An exponential function of numbers or colors and the interpolation between the same stops are both
accepted, and yield the same value for every numeric input.  A composite function of this kind is
the linear interpolation over the zoom of the linear interpolations of its zooms.
-/

set_option autoImplicit false

namespace MapStyle

open scoped Scalar

variable {ν : Type} [Platform ν]

namespace PropertySpec

variable {s : PropertySpec ν} {named : Option String} {space : ColorSpace}

omit [Platform ν] in
theorem expectedType_of_number (type : s.typeName = "number") : s.expectedType = .number := by
  simp [expectedType, type, Ty.ofName?]

omit [Platform ν] in
theorem expectedType_of_color (type : s.typeName = "color") : s.expectedType = .color := by
  simp [expectedType, type, Ty.ofName?]

omit [Platform ν] in
theorem BlendsIn.expectedType (blends : s.BlendsIn named space) :
    s.expectedType.BlendsIn space := by
  cases blends with
  | number type => exact expectedType_of_number type ▸ .number
  | color type | colorIn _ type => exact expectedType_of_color type ▸ .color _

theorem BlendsIn.compilesTo (blends : s.BlendsIn named space) {j : Json ν} {v : Value ν}
    (literal : s.literal? j = some v) :
    j.CompilesTo s.expectedType (.literal v s.expectedType) := by
  cases blends with
  | number type =>
    have literal : j.asNumber?.map .number = some v := by simpa [literal?, type] using literal
    obtain ⟨x, number, rfl⟩ := Option.map_eq_some_iff.mp literal
    exact expectedType_of_number type ▸ Json.compilesTo_number number
  | color type | colorIn _ type =>
    have literal : (Color.ofJson? j).map .color = some v := by simpa [literal?, type] using literal
    obtain ⟨c, color, rfl⟩ := Option.map_eq_some_iff.mp literal
    exact expectedType_of_color type ▸ Json.compilesTo_color color

end PropertySpec

/-! ## The input of a function -/

/-- The form of the input of a function: the zoom, or a property. -/
def Json.inputOf : Option String → Json ν
  | none => .arr [.str "zoom"]
  | some property => .arr [.str "get", .str property]

def Expr.inputOf : Option String → Expr ν
  | none => .zoom
  | some property => .assertion .number [.get (.literal (.string property) .string) none]

theorem Json.compilesTo_inputOf (property : Option String) :
    (inputOf property : Json ν).CompilesTo .number (.inputOf property) := by
  cases property with
  | none => exact compilesTo_zoom
  | some property => exact compilesTo_get property

namespace Expr

variable {env : Env ν} {property : Option String} {x : ν}

omit [Platform ν] in
theorem isConstant_inputOf (property : Option String) :
    (inputOf property : Expr ν).isConstant = false := by
  cases property <;> rfl

theorem eval_inputOf (number : env.number? property = some x) :
    (inputOf property).eval env = .ok (.number x) := by
  cases property with
  | none =>
    have zoomed : env.globals.zoom = some x := number
    rw [inputOf, eval, zoomed]
  | some property =>
    obtain ⟨j, found, number⟩ := Option.bind_eq_some_iff.mp number
    have read : (get (.literal (.string property) .string) none).eval env = .ok (.number x) := by
      simp [eval, Value.asString?, found, Value.ofJson_of_asNumber? number]
    rw [inputOf, eval, evalAssertion, read]
    rfl

end Expr

/-! ## Interpolations between the stops of a function -/

/-- The interpolation between the stops of an exponential function of one input. -/
def Json.interpolationOf (space : ColorSpace) (curve : Json ν) (property : Option String)
    (stops : List (Stop ν)) : Json ν :=
  interpolation space curve (inputOf property) (stops.map fun stop => (stop.key, stop.output))

def Expr.interpolationOf (t : Ty) (curve : Curve ν) (space : ColorSpace) (property : Option String)
    (table : List (ν × Value ν)) : Expr ν :=
  .interpolate t curve space (.inputOf property)
    (table.map fun entry => (entry.1, .literal entry.2 t))

/-- The linear interpolation over the zoom of the linear interpolations of each zoom over a
property, with the zooms for labels. -/
def Json.interpolationOfZooms (space : ColorSpace) (label : ν → Json ν) (property : String)
    (stops : List (Stop ν)) : Json ν :=
  interpolation space (.arr [.str "linear"]) (inputOf none) <|
    (zoomsOf stops).map fun z =>
      (label z, interpolationOf space (.arr [.str "linear"]) (some property) (stopsAtZoom z stops))

theorem Expr.eval_interpolationOf {env : Env ν} {property : Option String} {x : ν}
    (number : env.number? property = some x) {curve : Curve ν} {space : ColorSpace}
    {table : List (ν × Value ν)} {v : Value ν} (between : curve.between space table x = some v)
    (t : Ty) : (interpolationOf t curve space property table).eval env = .ok v := by
  refine eval_interpolate (eval_inputOf number) ?_ between t
  rw [List.map_map]
  exact List.map_congr_left fun _ _ => Prod.ext rfl rfl

def Expr.interpolationOfZooms (t : Ty) (space : ColorSpace) (property : String) (zooms : List ν)
    (tables : ν → List (ν × Value ν)) : Expr ν :=
  .interpolate t .linear space (.inputOf none)
    (zooms.map fun z => (z, .interpolationOf t .linear space (some property) (tables z)))

theorem Expr.eval_interpolationOfZooms {env : Env ν} {zoom x : ν}
    (zoomed : env.globals.zoom = some zoom) {property : String}
    (number : env.number? (some property) = some x) {space : ColorSpace} {zooms : List ν}
    {tables : ν → List (ν × Value ν)} {values : List (ν × Value ν)}
    (same : zooms.map (fun z => (z, Curve.linear.between space (tables z) x)) =
      values.map fun v => (v.1, some v.2)) {v : Value ν}
    (between : Curve.linear.between space values zoom = some v) (t : Ty) :
    (interpolationOfZooms t space property zooms tables).eval env = .ok v := by
  have input : env.number? none = some zoom := zoomed
  refine eval_interpolate (eval_inputOf input) ?_ between t
  rw [map_eq_map_iff_forall₂] at same
  rw [List.map_map, map_eq_map_iff_forall₂]
  refine same.imp fun z value entry => ?_
  obtain ⟨rfl, inner⟩ := Prod.mk.inj entry
  exact Prod.ext rfl (eval_interpolationOf number inner t)

section Compiled

variable [Scalar.Ordered ν] {s : PropertySpec ν} {named : Option String} {space : ColorSpace}
  (blends : s.BlendsIn named space)
include blends

theorem Json.compilesTo_interpolationOf {curveForm : Json ν} {curve : Curve ν}
    (shaped : Operator.curve [(Compiler.ofRegistry .standard).operand curveForm] = .ok curve)
    (property : Option String) {stops : List (Stop ν)} (nonempty : stops ≠ [])
    {table : List (ν × Value ν)} (tabulates : s.Tabulates stops table) :
    (interpolationOf space curveForm property stops).CompilesTo s.expectedType
      (.interpolationOf s.expectedType curve space property table) := by
  refine compilesTo_interpolation blends.expectedType shaped (compilesTo_inputOf property)
    (Expr.isConstant_inputOf property) (by simpa using nonempty) ?_ ?_
  · rw [List.forall₂_map_left_iff, List.forall₂_map_right_iff]
    exact tabulates.entries.imp fun stop entry read => ⟨read.1, blends.compilesTo read.2⟩
  · rw [List.map_map]
    exact tabulates.ascending

theorem Json.compilesTo_interpolationOfZooms {stops : List (Stop ν)} (nonempty : stops ≠ [])
    {tables : ν → List (ν × Value ν)} (byZoom : s.TabulatesByZoom stops tables)
    {label : ν → Json ν} (labelled : ∀ z ∈ zoomsOf stops, (label z).asNumber? = some z)
    (property : String) :
    (interpolationOfZooms space label property stops).CompilesTo s.expectedType
      (.interpolationOfZooms s.expectedType space property (zoomsOf stops) tables) := by
  refine compilesTo_interpolation blends.expectedType rfl (compilesTo_inputOf none)
    (Expr.isConstant_inputOf none) (by simpa using zoomsOf_ne_nil byZoom.numbers nonempty) ?_ ?_
  · rw [List.forall₂_map_left_iff, List.forall₂_map_right_iff, List.forall₂_same]
    intro z mem
    exact ⟨labelled z mem, compilesTo_interpolationOf blends rfl (some property)
      (stopsAtZoom_ne_nil byZoom.numbers mem) (byZoom.tabulates z mem)⟩
  · rw [List.map_map]
    simpa [Function.comp_def] using byZoom.ascending

end Compiled

theorem StyleExpression.compile_of_compilesTo {s : PropertySpec ν} {j : Json ν} {e : Expr ν}
    (compiles : j.CompilesTo s.expectedType e) :
    compile j (some s) = .ok ⟨e, some s, defaultOf (some s)⟩ := by
  have compiled : compileExpr .standard j (some s.expectedType) = .ok e := by
    rw [compileExpr, Site.root, compiles]
    rfl
  simp [compile, compileWith, compiled]

namespace CompiledFunction

theorem exists_between_of_tables (space : ColorSpace) {zooms : List ν}
    {tables : ν → List (ν × Value ν)} (nonempty : ∀ z ∈ zooms, tables z ≠ []) (x : ν) :
    ∃ values : List (ν × Value ν),
      zooms.map (fun z => (z, Curve.linear.between space (tables z) x)) =
        values.map fun v => (v.1, some v.2) := by
  refine ⟨zooms.map fun z => (z, (Curve.linear.between space (tables z) x).getD .null), ?_⟩
  rw [List.map_map]
  refine List.map_congr_left fun z mem => ?_
  obtain ⟨v, between⟩ := Curve.exists_between (nonempty z mem) .linear space x
  simp [between]

/-- An exponential function of the zoom or of a property and the interpolation between its stops
are both accepted for a property of numbers or colors, and yield the same value where their input
is a number.  So do an exponential function of zoom and property, and the linear interpolation over
the zoom of the linear interpolations of the zooms. -/
theorem exponential_agrees_with_interpolation [Scalar.Ordered ν] {s : PropertySpec ν}
    {named : Option String} {space : ColorSpace} (blends : s.BlendsIn named space)
    (usable : s.HasUsableDefault) :
    (∀ (property : Option String) (base : Json ν) (b : ν) (stops : List (Stop ν))
        (table : List (ν × Value ν)), base.asNumber? = some b → stops ≠ [] →
      s.Tabulates stops table →
      ∃ f g, compile ⟨some "exponential", property, some b, named, none, stops⟩ s = .ok f ∧
        StyleExpression.compile
          (.interpolationOf space (.arr [.str "exponential", base]) property stops) (some s) =
            .ok g ∧
        ∀ env x, env.number? property = some x →
          ∃ v, f.evaluate env = some v ∧ g.evaluate env.globals env.feature = .ok v) ∧
    ∀ (property : String) (base : Option ν) (stops : List (Stop ν)) (label : ν → Json ν)
        (tables : ν → List (ν × Value ν)), stops ≠ [] → s.TabulatesByZoom stops tables →
      (∀ z ∈ zoomsOf stops, (label z).asNumber? = some z) →
      ∃ f g, compile ⟨some "exponential", some property, base, named, none, stops⟩ s = .ok f ∧
        StyleExpression.compile (.interpolationOfZooms space label property stops) (some s) =
          .ok g ∧
        ∀ env zoom x, env.globals.zoom = some zoom → env.number? (some property) = some x →
          ∃ v, f.evaluate env = some v ∧ g.evaluate env.globals env.feature = .ok v := by
  constructor
  · intro property base b stops table number nonempty tabulates
    have shaped : Operator.curve
        [(Compiler.ofRegistry .standard).operand (.arr [.str "exponential", base])] =
          .ok (.exponential b) := by
      simp [Operator.curve, Compiler.operand_json, number]
    obtain ⟨f, compiled, looked⟩ :=
      exists_compileWithin (p := ⟨some "exponential", property, some b, named, none, stops⟩)
        rfl blends usable rfl nonempty tabulates
    refine ⟨f, _, compiled _, StyleExpression.compile_of_compilesTo
      (Json.compilesTo_interpolationOf blends shaped property nonempty tabulates), ?_⟩
    intro env x number
    obtain ⟨v, between⟩ := Curve.exists_between (tabulates.ne_nil nonempty) (.exponential b) space x
    exact ⟨v, (looked env x number).trans between, Expr.eval_interpolationOf number between _⟩
  · intro property base stops label tables nonempty byZoom labelled
    obtain ⟨f, compiled, looked⟩ := exists_compile_of_zooms
      (p := ⟨some "exponential", some property, base, named, none, stops⟩)
      rfl rfl blends usable rfl nonempty byZoom
    refine ⟨f, _, compiled, StyleExpression.compile_of_compilesTo
      (Json.compilesTo_interpolationOfZooms blends nonempty byZoom labelled property), ?_⟩
    intro env zoom x zoomed number
    obtain ⟨values, same⟩ := exists_between_of_tables space
      (fun z mem => (byZoom.tabulates z mem).ne_nil (stopsAtZoom_ne_nil byZoom.numbers mem)) x
    have filled : values ≠ [] := by
      rintro rfl
      exact zoomsOf_ne_nil byZoom.numbers nonempty (List.map_eq_nil_iff.mp same)
    obtain ⟨v, between⟩ := Curve.exists_between filled .linear space zoom
    exact ⟨v, (looked env zoom x values zoomed number same).trans between,
      Expr.eval_interpolationOfZooms zoomed number same between _⟩

def redToBlue : List (Stop Float) := [⟨.int 0, .str "red"⟩, ⟨.int 10, .str "blue"⟩]

def redToBlueAndBack : List (Stop Float) :=
  [⟨.obj [("value", .int 0), ("zoom", .int 0)], .str "red"⟩,
    ⟨.obj [("value", .int 0), ("zoom", .int 8)], .str "blue"⟩,
    ⟨.obj [("value", .int 10), ("zoom", .int 0)], .str "blue"⟩,
    ⟨.obj [("value", .int 10), ("zoom", .int 8)], .str "red"⟩]

theorem exists_tabulates_of_colors {s : PropertySpec Float} (color : s.typeName = "color")
    {first second : String}
    (firstColor : ∃ c : Color Float, Color.ofText? first = some c)
    (secondColor : ∃ c : Color Float, Color.ofText? second = some c) :
    ∃ table, s.Tabulates [⟨.int 0, .str first⟩, ⟨.int 10, .str second⟩] table := by
  obtain ⟨c, firstColor⟩ := firstColor
  obtain ⟨d, secondColor⟩ := secondColor
  refine ⟨[(Scalar.ofInt 0, .color c), (Scalar.ofInt 10, .color d)], ?_, ?_⟩
  · refine .cons ⟨rfl, ?_⟩ (.cons ⟨rfl, ?_⟩ .nil)
    · simp [PropertySpec.literal?, color, Color.ofJson?, Json.asString?, firstColor]
    · simp [PropertySpec.literal?, color, Color.ofJson?, Json.asString?, secondColor]
  · have ascends : (Scalar.ofInt 0 : Float) < Scalar.ofInt 10 := by decide
    simpa using ascends

theorem exponential_agrees_with_interpolation_of_colors :
    (PropertySpec.ofType "color" : PropertySpec Float).BlendsIn (some "hcl") .hcl ∧
      (PropertySpec.ofType "color" : PropertySpec Float).HasUsableDefault ∧
      (∃ f g v, compile ⟨some "exponential", none, some 2, some "hcl", none, redToBlue⟩
          (.ofType "color") = .ok f ∧
        StyleExpression.compile (.interpolationOf .hcl (.arr [.str "exponential", .int 2]) none
          redToBlue) (some (.ofType "color")) = .ok g ∧
        f.evaluate ⟨⟨some 5, none⟩, none⟩ = some v ∧ g.evaluate ⟨some 5, none⟩ none = .ok v) ∧
      ∃ f g v, compile ⟨some "exponential", some "p", none, some "hcl", none, redToBlueAndBack⟩
          (.ofType "color") = .ok f ∧
        StyleExpression.compile (.interpolationOfZooms .hcl .float "p" redToBlueAndBack)
          (some (.ofType "color")) = .ok g ∧
        f.evaluate ⟨⟨some 5, none⟩, some ⟨none, none, [("p", .int 4)]⟩⟩ = some v ∧
        g.evaluate ⟨some 5, none⟩ (some ⟨none, none, [("p", .int 4)]⟩) = .ok v := by
  have blends : (PropertySpec.ofType "color" : PropertySpec Float).BlendsIn (some "hcl") .hcl :=
    .colorIn .hcl rfl
  have usable : (PropertySpec.ofType "color" : PropertySpec Float).HasUsableDefault := nofun
  have red : ∃ c : Color Float, Color.ofText? "red" = some c := ⟨_, rfl⟩
  have blue : ∃ c : Color Float, Color.ofText? "blue" = some c := ⟨_, rfl⟩
  obtain ⟨oneLevel, twoLevels⟩ := exponential_agrees_with_interpolation blends usable
  refine ⟨blends, usable, ?_, ?_⟩
  · obtain ⟨table, tabulates⟩ := exists_tabulates_of_colors (s := .ofType "color") rfl red blue
    obtain ⟨f, g, compiled, interpolated, agree⟩ :=
      oneLevel none (.int 2) 2 redToBlue table rfl nofun tabulates
    obtain ⟨v, fYields, gYields⟩ := agree ⟨⟨some 5, none⟩, none⟩ 5 rfl
    exact ⟨f, g, v, compiled, interpolated, fYields, gYields⟩
  · obtain ⟨down, downTabulates⟩ := exists_tabulates_of_colors (s := .ofType "color") rfl red blue
    obtain ⟨up, upTabulates⟩ := exists_tabulates_of_colors (s := .ofType "color") rfl blue red
    have zooms : zoomsOf redToBlueAndBack = [Scalar.ofInt 0, Scalar.ofInt 8] := rfl
    have number : ∀ stop ∈ redToBlueAndBack,
        ∃ z v, stop.zoomAndValue? = some (z, v) ∧ (z == z) = true := by
      simp only [redToBlueAndBack, List.forall_mem_cons]
      exact ⟨⟨_, _, rfl, by decide⟩, ⟨_, _, rfl, by decide⟩, ⟨_, _, rfl, by decide⟩,
        ⟨_, _, rfl, by decide⟩, nofun⟩
    have ascending : (zoomsOf redToBlueAndBack).Pairwise (· < ·) := by
      have ascends : (Scalar.ofInt 0 : Float) < Scalar.ofInt 8 := by decide
      simpa [zooms] using ascends
    have byZoom : (PropertySpec.ofType "color").TabulatesByZoom redToBlueAndBack
        (fun z => if z == Scalar.ofInt 0 then down else up) := by
      refine ⟨number, ascending, ?_⟩
      rw [zooms]
      simp only [List.forall_mem_cons]
      exact ⟨downTabulates, upTabulates, nofun⟩
    obtain ⟨f, g, compiled, interpolated, agree⟩ :=
      twoLevels "p" none redToBlueAndBack .float _ nofun byZoom fun _ _ => rfl
    obtain ⟨v, fYields, gYields⟩ :=
      agree ⟨⟨some 5, none⟩, some ⟨none, none, [("p", .int 4)]⟩⟩ 5 (Scalar.ofInt 4) rfl rfl
    exact ⟨f, g, v, compiled, interpolated, fYields, gYields⟩

/-- A default that is no color refuses the function, and the interpolation is accepted all the
same. -/
theorem unusable_default_refuses_function_alone :
    ∃ (s : PropertySpec Float) (table : List (Float × Value Float)) (g : StyleExpression Float)
      (v : Value Float), s.BlendsIn (some "rgb") .rgb ∧ s.Tabulates redToBlue table ∧
      compile ⟨some "exponential", none, some 1, some "rgb", none, redToBlue⟩ s =
        .error (.invalidDefault "\"nope\"" "color") ∧
      StyleExpression.compile (.interpolationOf .rgb (.arr [.str "exponential", .int 1]) none
        redToBlue) (some s) = .ok g ∧
      g.evaluate ⟨some 5, none⟩ none = .ok v := by
  have red : ∃ c : Color Float, Color.ofText? "red" = some c := ⟨_, rfl⟩
  have blue : ∃ c : Color Float, Color.ofText? "blue" = some c := ⟨_, rfl⟩
  have blends : ((PropertySpec.ofType "color").withDefault (.str "nope") :
      PropertySpec Float).BlendsIn (some "rgb") .rgb := .colorIn .rgb rfl
  obtain ⟨table, tabulates⟩ := exists_tabulates_of_colors
    (s := (PropertySpec.ofType "color").withDefault (.str "nope")) rfl red blue
  have number : (⟨⟨some 5, none⟩, none⟩ : Env Float).number? none = some 5 := rfl
  have filled : redToBlue ≠ [] := nofun
  obtain ⟨v, between⟩ := Curve.exists_between (tabulates.ne_nil filled) (.exponential 1) .rgb 5
  exact ⟨_, table, _, v, blends, tabulates, rfl, StyleExpression.compile_of_compilesTo
    (Json.compilesTo_interpolationOf blends rfl none filled tabulates),
    Expr.eval_interpolationOf number between _⟩

end CompiledFunction

end MapStyle
