import MapStyle.Proofs.Members
import MapStyle.Proofs.StopFunction.Composite

/-!
# What functions yield

A property of values that the parsed outputs of a specification have, that an input taken as an
output has, and that blending keeps, is a property of everything that functions for the
specification yield.
-/

set_option autoImplicit false

namespace MapStyle

open scoped Scalar

variable {ν : Type} [Scalar ν]

namespace PropertySpec

/-- A property of the outputs that documents name, of inputs taken as outputs, and of blends. -/
structure Yields (s : PropertySpec ν) (P : Value ν → Prop) : Prop where
  parsed : ∀ j v, s.parseValue? j = some v → P v
  identity : ∀ j v, s.identity? (.ofJson j) = some v → P v
  blend : ∀ space a b t, P a → P b → P (s.blend space a b t)

variable {s : PropertySpec ν}

theorem parseValue?_of_parseOutput {i : Nat} {j : Json ν} {v : Value ν}
    (parsed : s.parseOutput i j = .ok v) : s.parseValue? j = some v := by
  unfold parseOutput at parsed
  split at parsed
  · rename_i found
    exact found.trans (congrArg some (Except.ok.inj parsed))
  · cases parsed

theorem parseValue?_of_not_hasParser (plain : s.hasParser = false) (j : Json ν) :
    s.parseValue? j = some (.ofJson j) := by
  simp only [hasParser, Bool.or_eq_false_iff, decide_eq_false_iff_not] at plain
  obtain ⟨⟨⟨color, padding⟩, numbers⟩, colors⟩ := plain
  unfold parseValue?
  split <;> first | contradiction | rfl

/-- What stands in for an output is what the document of the default names: the function's own
default, or else that of the property. -/
theorem default_cases {given : Option (Json ν)} {default : Option (Value ν)}
    (resolved : s.resolveDefault given = .ok default) :
    given.or s.default = none ∧ default.or (s.default.map .ofJson) = none ∨
      ∃ j v, given.or s.default = some j ∧ s.parseValue? j = some v ∧
        default.or (s.default.map .ofJson) = some v := by
  unfold resolveDefault at resolved
  cases inForce : given.or s.default with
  | none =>
    obtain ⟨noneGiven, noDefault⟩ := Option.or_eq_none_iff.mp inForce
    have noValue : default = none := by
      rw [inForce, noneGiven] at resolved
      split at resolved <;> exact (Except.ok.inj resolved).symm
    exact Or.inl ⟨rfl, by rw [noValue, noDefault]; rfl⟩
  | some j =>
    right
    cases parser : s.hasParser with
    | false =>
      rw [parser] at resolved
      obtain rfl := Except.ok.inj resolved
      refine ⟨j, _, rfl, parseValue?_of_not_hasParser parser j, ?_⟩
      rw [← Option.map_or, inForce]
      rfl
    | true =>
      -- a default that the parser takes hides the raw one of the property
      rw [parser, if_pos rfl, inForce] at resolved
      dsimp only at resolved
      split at resolved
      · rename_i v parsed
        obtain rfl := Except.ok.inj resolved
        exact ⟨j, v, rfl, parsed, rfl⟩
      · cases resolved

theorem exists_parseValue?_of_default {given : Option (Json ν)} {default : Option (Value ν)}
    (resolved : s.resolveDefault given = .ok default) {v : Value ν}
    (found : default.or (s.default.map .ofJson) = some v) : ∃ j, s.parseValue? j = some v := by
  rcases default_cases resolved with ⟨_, none⟩ | ⟨j, w, _, parsed, stands⟩
  · cases none.symm.trans found
  · exact ⟨j, parsed.trans (stands.symm.trans found)⟩

end PropertySpec

variable {s : PropertySpec ν} {P : Value ν → Prop}

theorem exists_of_map_eq_ok {ε α β : Type} {f : α → β} {x : Except ε α} {b : β}
    (mapped : x.map f = .ok b) : ∃ a, x = .ok a ∧ f a = b := by
  cases x with
  | error e => cases mapped
  | ok a => exact ⟨a, rfl, Except.ok.inj mapped⟩

namespace StopTable

theorem numericStops_cons {i : Nat} {last : Option ν} {stop : Stop ν} {rest : List (Stop ν)}
    {table : List (ν × Value ν)} (made : numericStops s i last (stop :: rest) = .ok table) :
    ∃ x v more, stop.key.asNumber? = some x ∧ s.parseValue? stop.output = some v ∧
      numericStops s (i + 1) (some x) rest = .ok more ∧ table = (x, v) :: more := by
  rw [numericStops] at made
  split at made
  · cases made
  · rename_i x number
    split at made
    · cases made
    · split at made
      · cases made
      · rename_i v parsed
        split at made
        · cases made
        · rename_i more later
          exact ⟨x, v, more, number, PropertySpec.parseValue?_of_parseOutput parsed, later,
            (Except.ok.inj made).symm⟩

theorem categoricalStops_cons {i : Nat} {stop : Stop ν} {rest : List (Stop ν)}
    {table : List (String × Value ν)} (made : categoricalStops s i (stop :: rest) = .ok table) :
    ∃ v more, s.parseValue? stop.output = some v ∧ categoricalStops s (i + 1) rest = .ok more ∧
      table = ((Value.ofJson stop.key).lookupText, v) :: more := by
  rw [categoricalStops] at made
  split at made
  · cases made
  · rename_i v parsed
    split at made
    · cases made
    · rename_i more later
      exact ⟨v, more, PropertySpec.parseValue?_of_parseOutput parsed, later,
        (Except.ok.inj made).symm⟩

/-- What accepted stops make under each rule. -/
inductive Made (s : PropertySpec ν) (stops : List (Stop ν)) : FunctionType → StopTable ν → Prop
  | direct : Made s stops .identity .direct
  | categorical {first : Stop ν} {outputs : List (String × Value ν)} : stops.head? = some first →
    categoricalStops s 0 stops = .ok outputs →
    Made s stops .categorical (.categorical (Value.ofJson first.key).shape outputs)
  | numeric {type : FunctionType} {values : List (ν × Value ν)} :
    type = .exponential ∨ type = .interval → stops ≠ [] → numericStops s 0 none stops = .ok values →
    Made s stops type (.numeric values)

theorem made_of_make {type : FunctionType} {stops : List (Stop ν)} {table : StopTable ν}
    (made : make s type stops = .ok table) : Made s stops type table := by
  have numeric (rule : type = .exponential ∨ type = .interval)
      (made : make.numericTable s stops = .ok table) : Made s stops type table := by
    unfold make.numericTable at made
    split at made
    · cases made
    · obtain ⟨values, listed, rfl⟩ := exists_of_map_eq_ok made
      exact .numeric rule (List.cons_ne_nil _ _) listed
  cases type with
  | identity =>
    obtain rfl := Except.ok.inj made
    exact .direct
  | categorical =>
    simp only [make] at made
    split at made
    · cases made
    · obtain ⟨outputs, listed, rfl⟩ := exists_of_map_eq_ok made
      exact .categorical rfl listed
  | interval => exact numeric (Or.inr rfl) made
  | exponential => exact numeric (Or.inl rfl) made

theorem exists_numeric_of_make {type : FunctionType} {stops : List (Stop ν)}
    {table : StopTable ν} (made : make s type stops = .ok table)
    (rule : type = .exponential ∨ type = .interval) : ∃ values, table = .numeric values := by
  cases made_of_make made with
  | direct => simp at rule
  | categorical => simp at rule
  | numeric => exact ⟨_, rfl⟩

theorem mem_numericStops {i : Nat} {last : Option ν} {stops : List (Stop ν)}
    {table : List (ν × Value ν)} (made : numericStops s i last stops = .ok table)
    {o : ν × Value ν} (mem : o ∈ table) : ∃ j, s.parseValue? j = some o.2 := by
  induction stops generalizing i last table with
  | nil =>
    obtain rfl := Except.ok.inj made
    cases mem
  | cons stop rest ih =>
    obtain ⟨x, v, more, _, parsed, later, rfl⟩ := numericStops_cons made
    rcases List.mem_cons.mp mem with rfl | mem
    · exact ⟨stop.output, parsed⟩
    · exact ih later mem

theorem mem_categoricalStops {i : Nat} {stops : List (Stop ν)} {table : List (String × Value ν)}
    (made : categoricalStops s i stops = .ok table) {o : String × Value ν} (mem : o ∈ table) :
    ∃ j, s.parseValue? j = some o.2 := by
  induction stops generalizing i table with
  | nil =>
    obtain rfl := Except.ok.inj made
    cases mem
  | cons stop rest ih =>
    obtain ⟨v, more, parsed, later, rfl⟩ := categoricalStops_cons made
    rcases List.mem_cons.mp mem with rfl | mem
    · exact ⟨stop.output, parsed⟩
    · exact ih later mem

def Outputs (P : Value ν → Prop) : StopTable ν → Prop
  | .direct => True
  | .numeric stops => ∀ o ∈ stops, P o.2
  | .categorical _ outputs => ∀ o ∈ outputs, P o.2

theorem outputs_of_make (yields : s.Yields P) {type : FunctionType} {stops : List (Stop ν)}
    {table : StopTable ν} (made : make s type stops = .ok table) : table.Outputs P := by
  cases made_of_make made with
  | direct => trivial
  | categorical _ listed =>
    intro o mem
    obtain ⟨j, parsed⟩ := mem_categoricalStops listed mem
    exact yields.parsed j o.2 parsed
  | numeric _ _ listed =>
    intro o mem
    obtain ⟨j, parsed⟩ := mem_numericStops listed mem
    exact yields.parsed j o.2 parsed

end StopTable

namespace StopFunction

theorem eq_of_make {p : FunctionParameters ν} {type : FunctionType} {space : ColorSpace}
    {f : StopFunction ν} (made : make p s type space = .ok f) :
    ∃ table default, StopTable.make s type p.stops = .ok table ∧
      s.resolveDefault p.default = .ok default ∧
      f = ⟨type, p.base.getD 1, space, table, default, s.default.map .ofJson, s⟩ := by
  unfold make at made
  split at made
  · cases made
  · rename_i table tableMade
    split at made
    · cases made
    · rename_i default resolved
      exact ⟨table, default, tableMade, resolved, (Except.ok.inj made).symm⟩

theorem orDefault_yields (yields : s.Yields P) {f : StopFunction ν} {given : Option (Json ν)}
    (resolved : s.resolveDefault given = .ok f.default)
    (specDefault : f.specDefault = s.default.map .ofJson) {found : Option (Value ν)}
    (holds : ∀ v ∈ found, P v) {v : Value ν} (evaluated : f.orDefault found = some v) : P v := by
  rw [orDefault, specDefault] at evaluated
  cases found with
  | some w =>
    obtain rfl := Option.some.inj evaluated
    exact holds w rfl
  | none =>
    obtain ⟨j, parsed⟩ := PropertySpec.exists_parseValue?_of_default resolved evaluated
    exact yields.parsed j v parsed

theorem atNumber_yields (yields : s.Yields P) {f : StopFunction ν} (spec : f.spec = s)
    {stops : List (ν × Value ν)} (outputs : ∀ o ∈ stops, P o.2) {x : ν} {v : Value ν}
    (evaluated : f.atNumber stops x = some v) : P v := by
  have output {i : Nat} {v : Value ν} (found : stops[i]?.map (·.2) = some v) : P v := by
    obtain ⟨o, isOutput, rfl⟩ := Option.map_eq_some_iff.mp found
    exact outputs o (List.mem_of_getElem? isOutput)
  unfold atNumber at evaluated
  dsimp only at evaluated
  split at evaluated
  · exact output evaluated
  · split at evaluated
    · split at evaluated
      · rename_i a b isA isB
        obtain rfl := Option.some.inj evaluated
        exact spec ▸ yields.blend _ a b _ (output isA) (output isB)
      · cases evaluated
    · exact output evaluated

theorem evaluate_yields (yields : s.Yields P) {p : FunctionParameters ν} {type : FunctionType}
    {space : ColorSpace} {f : StopFunction ν} (made : make p s type space = .ok f)
    {input : Option (Value ν)} (plain : ∀ v ∈ input, ∃ j, v = .ofJson j) {v : Value ν}
    (evaluated : f.evaluate input = some v) : P v := by
  obtain ⟨table, default, tableMade, resolved, rfl⟩ := eq_of_make made
  have outputs := StopTable.outputs_of_make yields tableMade
  unfold evaluate at evaluated
  cases table with
  | direct =>
    refine orDefault_yields yields resolved rfl ?_ evaluated
    intro w found
    obtain ⟨u, isInput, identity⟩ := Option.bind_eq_some_iff.mp found
    obtain ⟨j, rfl⟩ := plain u isInput
    exact yields.identity j w identity
  | categorical shape entries =>
    refine orDefault_yields yields resolved rfl ?_ evaluated
    intro w found
    obtain ⟨u, _, chosen⟩ := Option.bind_eq_some_iff.mp found
    split at chosen
    · have mem := mem_of_lookup chosen
      exact outputs _ (List.mem_reverse.mp mem)
    · cases chosen
  | numeric stops =>
    simp only at evaluated
    split at evaluated
    · exact atNumber_yields yields rfl outputs evaluated
    · exact orDefault_yields yields resolved rfl (by simp) evaluated

end StopFunction

namespace CompiledFunction

theorem source_or_camera {p : FunctionParameters ν} {type : FunctionType} {space : ColorSpace}
    {f : CompiledFunction ν} (made : compileSimple p s type space = .ok f) :
    ∃ g, StopFunction.make p s type space = .ok g ∧
      ((∃ name, p.property = some name ∧ f = .source name g) ∨
        p.property = none ∧
          f = .camera (p.stops.filterMap fun stop => stop.key.asNumber?) g) := by
  unfold compileSimple at made
  split at made
  · cases made
  · rename_i g inner
    refine ⟨g, inner, ?_⟩
    split at made
    · rename_i name named
      exact Or.inl ⟨name, named, (Except.ok.inj made).symm⟩
    · rename_i unnamed
      exact Or.inr ⟨unnamed, (Except.ok.inj made).symm⟩

/-- The input that parameters take from a context: the value of a property, or the zoom. -/
def input? (p : FunctionParameters ν) (env : Env ν) : Option (Value ν) :=
  match p.property with
  | some name => (env.property? name).map .ofJson
  | none => env.globals.zoom.map .number

/-- A function that is not composite answers with what its rule makes of the input. -/
theorem evaluate_eq_of_compileSimple {p : FunctionParameters ν} {f : CompiledFunction ν}
    {type : FunctionType} {space : ColorSpace} (made : compileSimple p s type space = .ok f)
    (env : Env ν) :
    ∃ g, StopFunction.make p s type space = .ok g ∧ f.evaluate env = g.evaluate (input? p env) := by
  obtain ⟨g, made, form⟩ := source_or_camera made
  refine ⟨g, made, ?_⟩
  rcases form with ⟨name, named, rfl⟩ | ⟨unnamed, rfl⟩
  · rw [evaluate, input?, named]
  · rw [evaluate, input?, unnamed]

theorem evaluate_yields (yields : s.Yields P) {p : FunctionParameters ν} {f : CompiledFunction ν}
    (compiled : compile p s = .ok f) {env : Env ν} {v : Value ν}
    (evaluated : f.evaluate env = some v) : P v := by
  have all : ∀ v, f.evaluate env = some v → P v := by
    refine compile_induction (motive := fun _ f => ∀ v, f.evaluate env = some v → P v) ?_ ?_
      compiled
    · intro p f type space _ _ _ made v evaluated
      obtain ⟨g, inner, same⟩ := evaluate_eq_of_compileSimple made env
      refine StopFunction.evaluate_yields yields inner ?_ (same ▸ evaluated)
      intro u found
      unfold input? at found
      split at found
      · obtain ⟨j, _, rfl⟩ := Option.map_eq_some_iff.mp found
        exact ⟨j, rfl⟩
      · obtain ⟨x, _, rfl⟩ := Option.map_eq_some_iff.mp found
        exact ⟨.float x, rfl⟩
    · intro p f parts _ each v evaluated
      have each {i : Nat} {v : Value ν} (found : evaluateAt env parts.stops i = some v) : P v := by
        rw [evaluateAt_eq] at found
        obtain ⟨stop, isStop, here⟩ := Option.bind_eq_some_iff.mp found
        obtain ⟨g, _, holds⟩ := each stop (List.mem_of_getElem? isStop)
        exact holds v here
      rw [congrArg (evaluate env) parts.eq_composite, evaluate] at evaluated
      split at evaluated
      · obtain ⟨default, resolved, fallback⟩ := parts.resolved
        obtain ⟨j, parsed⟩ :=
          PropertySpec.exists_parseValue?_of_default resolved (fallback ▸ evaluated)
        exact yields.parsed j v parsed
      · split at evaluated
        · exact each evaluated
        · split at evaluated
          · cases evaluated
          · rename_i a lower
            split at evaluated
            · cases evaluated
            · rename_i b upper
              obtain rfl := Option.some.inj evaluated
              exact yields.blend _ a b _ (each lower) (each upper)
  exact all v evaluated

end CompiledFunction

end MapStyle
