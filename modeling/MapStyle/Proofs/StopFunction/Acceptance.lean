import MapStyle.Proofs.Json.Reading
import MapStyle.Proofs.StopFunction.Labels
import MapStyle.Proofs.StopFunction.OwnZoom

/-!
# Well-formed definitions

What a definition has to be like to be accepted, said without the passes that check it: a known rule
and space, a default of the property, and stops that suit the rule; where the first input is an
object, zooms that ascend and stops at each of them that are well formed on their own.
-/

set_option autoImplicit false

namespace MapStyle

variable {ν : Type} [Scalar ν]

theorem StopsNaNFree.hasZoom {p : FunctionParameters ν} (free : StopsNaNFree p.stops) :
    ∀ zoom, p.HasZoom zoom → (zoom == zoom) = true := by
  intro zoom occurs
  obtain ⟨stop, mem, value, known⟩ := occurs
  exact free.zoom mem known

namespace FunctionType

theorem ofName_eq_ok_iff {name : String} {type : FunctionType} :
    ofName name = .ok type ↔ name = type.name := by
  constructor
  · intro named
    unfold ofName at named
    split at named
    · cases Except.ok.inj named
      rfl
    · cases Except.ok.inj named
      rfl
    · cases Except.ok.inj named
      rfl
    · cases Except.ok.inj named
      rfl
    · cases named
  · intro named
    subst named
    cases type <;> rfl

end FunctionType

theorem ColorSpace.ofName?_eq_some_iff {name : String} {space : ColorSpace} :
    ofName? name = some space ↔ name = space.name := by
  constructor
  · intro named
    unfold ofName? at named
    split at named
    · cases Option.some.inj named
      rfl
    · cases Option.some.inj named
      rfl
    · cases Option.some.inj named
      rfl
    · cases named
  · intro named
    subst named
    cases space <;> rfl

/-! ## The rule, the space and the default -/

namespace FunctionParameters

/-- The rule that parameters name; where they name none, that of properties that interpolate, or of
those that do not. -/
inductive HasRule (s : PropertySpec ν) (p : FunctionParameters ν) : FunctionType → Prop
  | named {type : FunctionType} : p.typeName = some type.name → HasRule s p type
  | interpolated : p.typeName = none → s.supportsInterpolation = true → HasRule s p .exponential
  | stepped : p.typeName = none → s.supportsInterpolation = false → HasRule s p .interval

/-- Parameters name no space, or one that there is. -/
def HasSpace (p : FunctionParameters ν) : Prop :=
  p.colorSpace = none ∨ ∃ space : ColorSpace, p.colorSpace = some space.name

end FunctionParameters

/-- Where values of the property are written otherwise than as plain data, the default in force is
one of them. -/
def PropertySpec.DefaultParses (s : PropertySpec ν) (given : Option (Json ν)) : Prop :=
  s.hasParser = true → ∀ j, given.or s.default = some j → ∃ v, s.parseValue? j = some v

theorem PropertySpec.exists_resolveDefault_iff {s : PropertySpec ν} {given : Option (Json ν)} :
    (∃ default, s.resolveDefault given = .ok default) ↔ s.DefaultParses given := by
  constructor
  · intro accepted parser j inForce
    obtain ⟨default, resolved⟩ := accepted
    rcases default_cases resolved with ⟨none, _⟩ | ⟨j', v, inForce', parsed, _⟩
    · cases none.symm.trans inForce
    · cases Option.some.inj (inForce'.symm.trans inForce)
      exact ⟨v, parsed⟩
  · intro parses
    unfold resolveDefault
    cases parser : s.hasParser with
    | false => exact ⟨_, rfl⟩
    | true =>
      cases inForce : given.or s.default with
      | none => exact ⟨_, rfl⟩
      | some j =>
        obtain ⟨v, parsed⟩ := parses parser j inForce
        simp [parsed]

namespace CompiledFunction

variable {s : PropertySpec ν} {p : FunctionParameters ν} {type : FunctionType}

omit [Scalar ν] in
theorem ruleOf_eq_ok_iff : ruleOf p s = .ok type ↔ p.HasRule s type := by
  unfold ruleOf
  constructor
  · intro ruled
    split at ruled
    · rename_i name named
      rw [FunctionType.ofName_eq_ok_iff.mp ruled] at named
      exact .named named
    · rename_i unnamed
      cases Except.ok.inj ruled
      cases interpolates : s.supportsInterpolation with
      | true => exact .interpolated unnamed interpolates
      | false => exact .stepped unnamed interpolates
  · intro rule
    cases rule with
    | named named =>
      rw [named]
      exact FunctionType.ofName_eq_ok_iff.mpr rfl
    | interpolated unnamed interpolates => simp [unnamed, interpolates]
    | stepped unnamed interpolates => simp [unnamed, interpolates]

omit [Scalar ν] in
theorem exists_spaceOf_iff : (∃ space, spaceOf p = .ok space) ↔ p.HasSpace := by
  unfold spaceOf
  constructor
  · intro accepted
    obtain ⟨space, spaced⟩ := accepted
    split at spaced
    · rename_i unnamed
      exact Or.inl unnamed
    · rename_i name named
      split at spaced
      · rename_i space known
        exact Or.inr ⟨space, named.trans (congrArg some (ColorSpace.ofName?_eq_some_iff.mp known))⟩
      · cases spaced
  · intro known
    rcases known with unnamed | ⟨space, named⟩
    · rw [unnamed]
      exact ⟨_, rfl⟩
    · have found : ColorSpace.ofName? space.name = some space :=
        ColorSpace.ofName?_eq_some_iff.mpr rfl
      simp [named, found]

end CompiledFunction

/-! ## The stops -/

namespace StopTable

def OutputsParse (s : PropertySpec ν) (stops : List (Stop ν)) : Prop :=
  ∀ stop ∈ stops, ∃ v, s.parseValue? stop.output = some v

/-- The inputs of stops are numbers, none below the one before. -/
def InputsAscend (stops : List (Stop ν)) : Prop :=
  (∀ stop ∈ stops, ∃ x, stop.key.asNumber? = some x) ∧
    (stops.filterMap fun stop => stop.key.asNumber?).Pairwise (· ≤ ·)

inductive Suits (s : PropertySpec ν) (stops : List (Stop ν)) : FunctionType → Prop
  | identity : Suits s stops .identity
  | categorical : stops ≠ [] → OutputsParse s stops → Suits s stops .categorical
  | numeric {type : FunctionType} : type = .exponential ∨ type = .interval → stops ≠ [] →
    OutputsParse s stops → InputsAscend stops → Suits s stops type

variable {s : PropertySpec ν} {type : FunctionType} {stops : List (Stop ν)}

theorem exists_categoricalStops_iff :
    (∃ table, categoricalStops s 0 stops = .ok table) ↔ OutputsParse s stops := by
  simp only [categoricalStops_eq_ok_iff, exists_forall₂_iff]
  constructor
  · intro each stop mem
    obtain ⟨entry, _, parsed⟩ := each stop mem
    exact ⟨entry.2, parsed⟩
  · intro each stop mem
    obtain ⟨v, parsed⟩ := each stop mem
    exact ⟨(_, v), rfl, parsed⟩

theorem exists_numericStops_iff [Scalar.Ordered ν] (free : StopsNaNFree stops) :
    (∃ table, numericStops s 0 none stops = .ok table) ↔
      OutputsParse s stops ∧ InputsAscend stops := by
  constructor
  · intro accepted
    obtain ⟨table, listed⟩ := accepted
    obtain ⟨entries, chain⟩ := numericStops_eq_ok_iff.mp listed
    have each := exists_forall₂_iff.mp ⟨table, entries⟩
    refine ⟨?_, ?_, ?_⟩
    · intro stop mem
      obtain ⟨entry, _, parsed⟩ := each stop mem
      exact ⟨entry.2, parsed⟩
    · intro stop mem
      obtain ⟨entry, number, _⟩ := each stop mem
      exact ⟨entry.1, number⟩
    · rw [← labels_eq entries]
      refine pairwise_le_of_isChain chain ?_
      intro x mem
      exact Scalar.le_of_beq (numbers_of_labels free entries x mem)
  · intro suits
    obtain ⟨outputs, numbers, ascend⟩ := suits
    have each : ∀ stop ∈ stops, ∃ entry, Labels s stop entry := by
      intro stop mem
      obtain ⟨v, parsed⟩ := outputs stop mem
      obtain ⟨x, number⟩ := numbers stop mem
      exact ⟨(x, v), number, parsed⟩
    obtain ⟨table, entries⟩ := exists_forall₂_iff.mpr each
    rw [← labels_eq entries] at ascend
    exact ⟨table, numericStops_eq_ok_iff.mpr ⟨entries, isChain_of_pairwise_le ascend⟩⟩

/-- Stops make a table just where they suit the rule. -/
theorem exists_make_iff [Scalar.Ordered ν] (free : StopsNaNFree stops) :
    (∃ table, make s type stops = .ok table) ↔ Suits s stops type := by
  constructor
  · intro accepted
    obtain ⟨table, made⟩ := accepted
    cases made_of_make made with
    | direct => exact .identity
    | categorical starts listed =>
      refine .categorical ?_ (exists_categoricalStops_iff.mp ⟨_, listed⟩)
      intro empty
      rw [empty] at starts
      cases starts
    | numeric rule nonempty listed =>
      obtain ⟨outputs, inputs⟩ := (exists_numericStops_iff free).mp ⟨_, listed⟩
      exact .numeric rule nonempty outputs inputs
  · intro suits
    cases stops with
    | nil =>
      cases suits with
      | identity => exact ⟨_, rfl⟩
      | categorical nonempty => exact absurd rfl nonempty
      | numeric _ nonempty => exact absurd rfl nonempty
    | cons first rest =>
      cases suits with
      | identity => exact ⟨_, rfl⟩
      | categorical _ outputs =>
        obtain ⟨table, listed⟩ := exists_categoricalStops_iff.mpr outputs
        simp [make, listed, Except.map]
      | numeric rule _ outputs inputs =>
        obtain ⟨table, listed⟩ := (exists_numericStops_iff free).mpr ⟨outputs, inputs⟩
        rcases rule with rule | rule
        · simp [rule, make, make.numericTable, listed, Except.map]
        · simp [rule, make, make.numericTable, listed, Except.map]

end StopTable

namespace CompiledFunction

variable {s : PropertySpec ν} {p : FunctionParameters ν} {type : FunctionType}

/-- Parameters with a known rule and space, and a default of the property. -/
structure Admissible (s : PropertySpec ν) (p : FunctionParameters ν) (type : FunctionType) :
    Prop where
  rule : p.HasRule s type
  space : p.HasSpace
  default : s.DefaultParses p.default

/-- The definitions of functions for a property. -/
inductive WellFormed (s : PropertySpec ν) : FunctionParameters ν → Prop
  | simple {p : FunctionParameters ν} {type : FunctionType} : p.isComposite = false →
    Admissible s p type → StopTable.Suits s p.stops type → WellFormed s p
  | composite {p : FunctionParameters ν} {type : FunctionType} : p.isComposite = true →
    Admissible s p type →
    (∀ stop ∈ p.stops, ∃ zoom value, stop.zoomAndValue? = some (zoom, value)) →
    (zoomsOf p.stops).Pairwise (· < ·) → (∀ zoom ∈ zoomsOf p.stops, WellFormed s (p.atZoom zoom)) →
    WellFormed s p

theorem exists_compileSimple_iff {space : ColorSpace} :
    (∃ f, compileSimple p s type space = .ok f) ↔
      s.DefaultParses p.default ∧ ∃ table, StopTable.make s type p.stops = .ok table := by
  rw [← PropertySpec.exists_resolveDefault_iff]
  constructor
  · intro accepted
    obtain ⟨f, made⟩ := accepted
    obtain ⟨g, made, _⟩ := source_or_camera made
    obtain ⟨table, default, tableMade, resolved, _⟩ := StopFunction.eq_of_make made
    exact ⟨⟨default, resolved⟩, table, tableMade⟩
  · intro accepted
    obtain ⟨⟨default, resolved⟩, table, tableMade⟩ := accepted
    simp only [compileSimple, StopFunction.make, tableMade, resolved]
    cases p.property <;> exact ⟨_, rfl⟩

theorem exists_compile_iff_of_simple [Scalar.Ordered ν] (free : StopsNaNFree p.stops)
    (simple : p.isComposite = false) :
    (∃ f, compile p s = .ok f) ↔
      ∃ type, Admissible s p type ∧ StopTable.Suits s p.stops type := by
  constructor
  · intro accepted
    obtain ⟨f, compiled⟩ := accepted
    obtain ⟨type, space, ruled, spaced, made⟩ := compileSimple_of_compile compiled simple
    obtain ⟨default, table⟩ := exists_compileSimple_iff.mp ⟨f, made⟩
    exact ⟨type, ⟨ruleOf_eq_ok_iff.mp ruled, exists_spaceOf_iff.mp ⟨space, spaced⟩, default⟩,
      (StopTable.exists_make_iff free).mp table⟩
  · intro wellFormed
    obtain ⟨type, admissible, suits⟩ := wellFormed
    obtain ⟨space, spaced⟩ := exists_spaceOf_iff.mpr admissible.space
    rw [compile, compileWithin_of_not_isComposite s simple, ruleOf_eq_ok_iff.mpr admissible.rule,
      spaced]
    exact exists_compileSimple_iff.mpr
      ⟨admissible.default, (StopTable.exists_make_iff free).mpr suits⟩

theorem ruled_of_compile {f : CompiledFunction ν} (compiled : compile p s = .ok f) :
    ∃ type space, ruleOf p s = .ok type ∧ spaceOf p = .ok space := by
  rw [compile, compileWithin] at compiled
  cases ruled : ruleOf p s with
  | error e => rw [ruled] at compiled; cases compiled
  | ok type =>
    cases spaced : spaceOf p with
    | error e => rw [ruled, spaced] at compiled; cases compiled
    | ok space => exact ⟨type, space, rfl, rfl⟩

theorem numbered_of_free {stops : List (Stop ν)} (free : StopsNaNFree stops)
    (haveZooms : ∀ stop ∈ stops, ∃ zoom value, stop.zoomAndValue? = some (zoom, value)) :
    ∀ stop ∈ stops, ∃ zoom value,
      stop.zoomAndValue? = some (zoom, value) ∧ (zoom == zoom) = true := by
  intro stop mem
  obtain ⟨zoom, value, known⟩ := haveZooms stop mem
  exact ⟨zoom, value, known, free.zoom mem known⟩

section Ordered

variable [Scalar.Ordered ν]

theorem groups_eq_of_regroup {stops : List (Stop ν)} (free : StopsNaNFree stops)
    {groups : List (ν × List (Stop ν))} (regrouped : regroup 0 [] stops = .ok groups) :
    (∀ stop ∈ stops, ∃ zoom value, stop.zoomAndValue? = some (zoom, value)) ∧
      groups = (zoomsOf stops).map fun zoom => (zoom, stopsAtZoom zoom stops) := by
  have numbers : ∀ stop ∈ stops, ∀ zoom value, stop.zoomAndValue? = some (zoom, value) →
      (zoom == zoom) = true := fun stop mem _ _ known => free.zoom mem known
  obtain ⟨_, known⟩ := areGroups_of_regroup areGroups_nil numbers regrouped
  have haveZooms : ∀ stop ∈ stops, ∃ zoom value, stop.zoomAndValue? = some (zoom, value) := by
    intro stop mem
    obtain ⟨⟨zoom, value⟩, known⟩ := Option.isSome_iff_exists.mp (known stop mem)
    exact ⟨zoom, value, known⟩
  have byZoom := regroup_eq_zoomsOf (numbered_of_free free haveZooms)
  exact ⟨haveZooms, Except.ok.inj (regrouped.symm.trans byZoom)⟩

theorem exists_compileGroups_of_zooms (free : StopsNaNFree p.stops)
    (haveZooms : ∀ stop ∈ p.stops, ∃ zoom value, stop.zoomAndValue? = some (zoom, value))
    (each : ∀ zoom ∈ zoomsOf p.stops, ∃ f, compile (p.atZoom zoom) s = .ok f) :
    ∃ stops, compileGroups (fun stops =>
        compileWithin (FunctionParameters.keyDepth p.stops - 1) (groupParameters p stops) s)
      ((zoomsOf p.stops).map fun zoom => (zoom, stopsAtZoom zoom p.stops)) = .ok stops := by
  have regrouped := regroup_eq_zoomsOf (numbered_of_free free haveZooms)
  have groups : ∀ g ∈ (zoomsOf p.stops).map fun zoom => (zoom, stopsAtZoom zoom p.stops),
      ∃ f, compileWithin (FunctionParameters.keyDepth p.stops - 1) (groupParameters p g.2) s =
        .ok f ∧ True := by
    intro g mem
    rw [compileWithin_eq_compile s (keyDepth_group_le regrouped mem (Nat.le_refl _))]
    obtain ⟨zoom, isZoom, same⟩ := List.mem_map.mp mem
    subst same
    obtain ⟨f, made⟩ := each zoom isZoom
    exact ⟨f, made, trivial⟩
  obtain ⟨stops, grouped, _⟩ := exists_compileGroups
    (fun stops =>
      compileWithin (FunctionParameters.keyDepth p.stops - 1) (groupParameters p stops) s)
    (fun _ _ => True) groups
  exact ⟨stops, grouped⟩

theorem exists_compile_iff_of_composite (free : StopsNaNFree p.stops)
    (composite : p.isComposite = true) :
    (∃ f, compile p s = .ok f) ↔
      (∃ type, Admissible s p type) ∧
        (∀ stop ∈ p.stops, ∃ zoom value, stop.zoomAndValue? = some (zoom, value)) ∧
        (zoomsOf p.stops).Pairwise (· < ·) ∧
        ∀ zoom ∈ zoomsOf p.stops, ∃ f, compile (p.atZoom zoom) s = .ok f := by
  constructor
  · intro accepted
    obtain ⟨f, compiled⟩ := accepted
    obtain ⟨type, space, ruled, spaced⟩ := ruled_of_compile compiled
    obtain ⟨parts⟩ := compositeParts_of_compile compiled composite
    obtain ⟨default, resolved, _⟩ := parts.resolved
    obtain ⟨haveZooms, groups⟩ := groups_eq_of_regroup free parts.regrouped
    have parses := PropertySpec.exists_resolveDefault_iff.mp ⟨default, resolved⟩
    have zooms : parts.stops.map (·.1) = zoomsOf p.stops := by
      rw [parts.zooms, groups, map_fst_stopsAtZoom]
    refine ⟨⟨type, ruleOf_eq_ok_iff.mp ruled, exists_spaceOf_iff.mp ⟨space, spaced⟩, parses⟩,
      haveZooms, zooms ▸ parts.ascending free.hasZoom, ?_⟩
    intro zoom mem
    have isGroup : (zoom, stopsAtZoom zoom p.stops) ∈ parts.groups :=
      groups ▸ List.mem_map_of_mem mem
    obtain ⟨i, found⟩ := List.getElem?_of_mem isGroup
    obtain ⟨g, _, made⟩ := parts.compiled i _ found
    exact ⟨g, made⟩
  · intro wellFormed
    obtain ⟨⟨type, admissible⟩, haveZooms, ascending, each⟩ := wellFormed
    obtain ⟨space, spaced⟩ := exists_spaceOf_iff.mpr admissible.space
    obtain ⟨default, resolved⟩ := PropertySpec.exists_resolveDefault_iff.mpr admissible.default
    obtain ⟨stops, grouped⟩ := exists_compileGroups_of_zooms free haveZooms each
    rw [compile, compileWithin_of_isComposite s composite (Nat.le_refl _),
      ruleOf_eq_ok_iff.mpr admissible.rule, spaced]
    simp only [Except.bind, compileComposite, map_fst_stopsAtZoom, resolved, grouped,
      regroup_eq_zoomsOf (numbered_of_free free haveZooms),
      descent?_eq_none_of_pairwise_lt ascending]
    exact ⟨_, rfl⟩

/-- A definition is accepted just where it is well formed. -/
theorem exists_compile_iff_wellFormed (free : StopsNaNFree p.stops) :
    (∃ f, compile p s = .ok f) ↔ WellFormed s p := by
  induction depth : FunctionParameters.keyDepth p.stops using Nat.strongRecOn generalizing p with
  | ind n ih =>
    cases shape : p.isComposite with
    | false =>
      rw [exists_compile_iff_of_simple free shape]
      constructor
      · intro accepted
        obtain ⟨type, admissible, suits⟩ := accepted
        exact .simple shape admissible suits
      · intro wellFormed
        cases wellFormed with
        | simple _ admissible suits => exact ⟨_, admissible, suits⟩
        | composite composite => cases shape.symm.trans composite
    | true =>
      have each
          (haveZooms : ∀ stop ∈ p.stops, ∃ zoom value, stop.zoomAndValue? = some (zoom, value)) :
          ∀ zoom ∈ zoomsOf p.stops,
            (∃ f, compile (p.atZoom zoom) s = .ok f) ↔ WellFormed s (p.atZoom zoom) := by
        intro zoom mem
        have regrouped := regroup_eq_zoomsOf (numbered_of_free free haveZooms)
        have isGroup := List.mem_map_of_mem (f := fun zoom => (zoom, stopsAtZoom zoom p.stops)) mem
        have positive : n ≠ 0 := by
          intro zero
          have refused := regroup_of_keyDepth_eq_zero shape (depth.trans zero)
          cases refused.symm.trans regrouped
        have less : FunctionParameters.keyDepth (p.atZoom zoom).stops ≤ n - 1 :=
          keyDepth_group_le regrouped isGroup (Nat.le_of_eq depth)
        exact ih _ (by omega) (free.group regrouped isGroup) rfl
      rw [exists_compile_iff_of_composite free shape]
      constructor
      · intro accepted
        obtain ⟨⟨type, admissible⟩, haveZooms, ascending, groups⟩ := accepted
        refine .composite shape admissible haveZooms ascending ?_
        intro zoom mem
        exact (each haveZooms zoom mem).mp (groups zoom mem)
      · intro wellFormed
        cases wellFormed with
        | simple simple => cases simple.symm.trans shape
        | composite _ admissible haveZooms ascending groups =>
          refine ⟨⟨_, admissible⟩, haveZooms, ascending, ?_⟩
          intro zoom mem
          exact (each haveZooms zoom mem).mpr (groups zoom mem)

end Ordered

def numberedNames : FunctionParameters Float where
  typeName := some "interval"
  property := some "p"
  base := none
  colorSpace := some "lab"
  default := none
  stops := [
    ⟨.obj [("zoom", .int 1), ("value", .int 2)], .str "a"⟩,
    ⟨.obj [("zoom", .int 3), ("value", .int 0)], .str "b"⟩,
    ⟨.obj [("zoom", .int 1), ("value", .int 2)], .str "c"⟩]

def descendingNames : FunctionParameters Float :=
  { numberedNames with stops := numberedNames.stops.tail }

theorem numberedNames_free : StopsNaNFree numberedNames.stops := by
  have key (zoom value : Int) :
      (Json.obj [("zoom", .int zoom), ("value", .int value)] : Json Float).NaNFree :=
    .obj (List.forall_mem_cons.mpr
      ⟨Json.nanFree_int zoom, List.forall_mem_singleton.mpr (Json.nanFree_int value)⟩)
  exact List.forall_mem_cons.mpr ⟨key 1 2, List.forall_mem_cons.mpr ⟨key 3 0,
    List.forall_mem_singleton.mpr (key 1 2)⟩⟩

theorem wellFormed_of_ascending_not_descending :
    WellFormed (.ofType "string") numberedNames ∧
      ¬ WellFormed (.ofType "string") descendingNames := by
  constructor
  · exact (exists_compile_iff_wellFormed numberedNames_free).mp ⟨_, rfl⟩
  · intro wellFormed
    have free : StopsNaNFree descendingNames.stops := fun stop mem =>
      numberedNames_free stop (List.mem_of_mem_tail mem)
    obtain ⟨f, compiled⟩ := (exists_compile_iff_wellFormed free).mpr wellFormed
    have refused : compile descendingNames (.ofType "string") = .error (.unsortedStops 1) := rfl
    cases refused.symm.trans compiled

end CompiledFunction

end MapStyle
