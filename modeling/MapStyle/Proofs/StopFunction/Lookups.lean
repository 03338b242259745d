import MapStyle.Proofs.Compile.Lookups
import MapStyle.Proofs.StopFunction.Acceptance

/-!
# Look-ups of functions

A function looks its input up among the labels of its stops and a composite one the zoom among those
of its functions.  What is checked when a definition is accepted makes all these look-ups end at
stops that are there; for interpolations of expressions the compiler sees to the same.
-/

set_option autoImplicit false

namespace MapStyle

variable {ν : Type} [Scalar ν]

/-- A function that compares its input has stops at labels that do not descend, and these are all
that is looked up. -/
structure StopFunction.LooksUpInBounds (f : StopFunction ν) : Prop where
  numeric : f.type = .exponential ∨ f.type = .interval → ∃ stops, f.table = .numeric stops
  inBounds : ∀ stops, f.table = .numeric stops → InBounds (· ≤ ·) stops

namespace CompiledFunction

/-- A function is in another one: it is that one, or in the function of one of its zooms. -/
inductive Inside : CompiledFunction ν → CompiledFunction ν → Prop
  | self (f : CompiledFunction ν) : Inside f f
  | stop {part : CompiledFunction ν} {stops : List (ν × CompiledFunction ν)}
    {fallback : Option (Value ν)} {space : ColorSpace} {s : PropertySpec ν}
    {stop : ν × CompiledFunction ν} : stop ∈ stops → Inside part stop.2 →
    Inside part (.composite stops fallback space s)

/-- The stops of a function, or its functions at ascending zooms, are all that it looks up. -/
def LooksUpInBounds : CompiledFunction ν → Prop
  | .source _ f => f.LooksUpInBounds
  | .camera _ f => f.LooksUpInBounds
  | .composite stops _ _ _ => InBounds (· < ·) stops

def Bounded (f : CompiledFunction ν) : Prop :=
  ∀ part : CompiledFunction ν, part.Inside f → part.LooksUpInBounds

variable [Scalar.Ordered ν] {p : FunctionParameters ν} {s : PropertySpec ν} {f : CompiledFunction ν}

theorem looksUpInBounds_of_make {type : FunctionType} {space : ColorSpace} {g : StopFunction ν}
    (free : StopsNaNFree p.stops) (made : StopFunction.make p s type space = .ok g) :
    g.LooksUpInBounds := by
  obtain ⟨table, default, tableMade, _, rfl⟩ := StopFunction.eq_of_make made
  refine ⟨StopTable.exists_numeric_of_make tableMade, ?_⟩
  rintro stops rfl
  obtain ⟨filled, _, numbers, sorted⟩ := StopTable.ascending_of_make free tableMade
  exact inBounds_of_sorted (fun _ _ le => le) filled numbers sorted

theorem bounded_of_compileSimple {type : FunctionType} {space : ColorSpace}
    (free : StopsNaNFree p.stops) (made : compileSimple p s type space = .ok f) : f.Bounded := by
  obtain ⟨g, made, form⟩ := source_or_camera made
  have inBounds := looksUpInBounds_of_make free made
  rcases form with ⟨name, _, rfl⟩ | ⟨_, rfl⟩
  · intro part inside
    cases inside with
    | self => exact inBounds
  · intro part inside
    cases inside with
    | self => exact inBounds

theorem CompositeParts.inBounds (parts : CompositeParts p s f) (composite : p.isComposite = true)
    (free : StopsNaNFree p.stops) : InBounds (· < ·) parts.stops := by
  refine inBounds_of_sorted (fun _ _ => Scalar.le_of_lt) (parts.stops_ne_nil composite) ?_
    (parts.ascending free.hasZoom)
  intro zoom mem
  obtain ⟨stop, stopMem, rfl⟩ := List.mem_map.mp mem
  obtain ⟨i, found⟩ := List.getElem?_of_mem stopMem
  exact free.hasZoom _ (parts.hasZoom free.hasZoom found)

theorem compile_bounded (free : StopsNaNFree p.stops) (compiled : compile p s = .ok f) :
    f.Bounded := by
  revert free
  refine compile_induction (motive := fun p f => StopsNaNFree p.stops → f.Bounded) ?_ ?_ compiled
  · intro p f type space _ _ _ made free
    exact bounded_of_compileSimple free made
  · intro p f parts composite each free part inside
    rw [parts.eq_composite] at inside
    cases inside with
    | self => exact parts.inBounds composite free
    | stop mem inside =>
      obtain ⟨g, gMem, bounded⟩ := each _ mem
      exact bounded (free.group parts.regrouped gMem) part inside

end CompiledFunction

/-- Neither the functions that are accepted nor the expressions that documents compile to look
anything up beyond their stops. -/
theorem lookups_inBounds {ν : Type} [Platform ν] [Scalar.Ordered ν] :
    (∀ (p : FunctionParameters ν) (s : PropertySpec ν) (f : CompiledFunction ν),
      StopsNaNFree p.stops → CompiledFunction.compile p s = .ok f → f.Bounded) ∧
    ∀ (r : Registry ν) (j : Json ν) (expected : Option Ty) (e : Expr ν), r.IsStandard →
      j.NaNFree → compileExpr r j expected = .ok e → e.Bounded :=
  ⟨fun _ _ _ => CompiledFunction.compile_bounded, fun _ _ _ _ standard free =>
    compileExpr_bounded standard free⟩

def risingLine : Json Float :=
  .arr [.str "interpolate", .arr [.str "linear"], .arr [.str "zoom"], .int 0, .int 1, .int 10,
    .int 2]

theorem lookups_inBounds_of_names_and_line :
    (∃ f : CompiledFunction Float,
      CompiledFunction.compile CompiledFunction.numberedNames (.ofType "string") = .ok f ∧
        f.Bounded) ∧
      ∃ e : Expr Float, compileExpr .standard risingLine none = .ok e ∧ e.Bounded := by
  obtain ⟨functions, expressions⟩ := lookups_inBounds (ν := Float)
  constructor
  · obtain ⟨f, compiled⟩ : ∃ f,
        CompiledFunction.compile CompiledFunction.numberedNames (.ofType "string") = .ok f :=
      ⟨_, rfl⟩
    exact ⟨f, compiled, functions _ _ f CompiledFunction.numberedNames_free compiled⟩
  · obtain ⟨e, compiled⟩ : ∃ e, compileExpr .standard risingLine none = .ok e := ⟨_, rfl⟩
    have free : risingLine.NaNFree := by
      have form (name : String) : (Json.arr [.str name] : Json Float).NaNFree :=
        .arr (List.forall_mem_singleton.mpr (.str name))
      refine .arr ?_
      simp only [List.forall_mem_cons]
      exact ⟨.str _, form "linear", form "zoom", Json.nanFree_int 0, Json.nanFree_int 1,
        Json.nanFree_int 10, Json.nanFree_int 2, List.forall_mem_nil _⟩
    exact ⟨e, compiled, expressions _ _ _ e Registry.isStandard_standard free compiled⟩

end MapStyle
