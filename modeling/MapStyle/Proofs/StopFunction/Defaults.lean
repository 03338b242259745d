import MapStyle.Proofs.StopFunction.Categories

/-!
# The default of a function

Wherever the rule of a function has no answer, its default stands in: its own one, or else that of
its property.  A composite function finds the default at the zooms around and blends it with itself.
Hence a function with a default always yields something.
-/

set_option autoImplicit false

namespace MapStyle

open scoped Scalar

variable {ν : Type} [Scalar ν]

/-! ## Inputs without an answer -/

/-- An input that a property cannot take over: nothing, unless it is an `enum`; a text that is no
color, or no text at all; what is no padding or list, as a document; a value that is no text allowed
for an `enum`; and one of another type, where the property asks for nothing else. -/
inductive PropertySpec.Unconvertible (s : PropertySpec ν) : Value ν → Prop
  | null : s.typeName ≠ "enum" → Unconvertible s .null
  | color {v : Value ν} : s.typeName = "color" →
    (∀ text, v = .string text → Color.ofText? (ν := ν) text = none) → Unconvertible s v
  | unparsed {v : Value ν} : s.typeName ∈ ["padding", "numberArray", "colorArray"] →
    s.parseValue? v.toJson = none → Unconvertible s v
  | notAllowed {v : Value ν} : s.typeName = "enum" → (∀ text ∈ s.enumValues, v ≠ .string text) →
    Unconvertible s v
  | otherType {v : Value ν} : s.typeName ∉ ["color", "formatted", "resolvedImage", "padding",
      "numberArray", "colorArray", "enum"] → v.shape.name ≠ s.typeName → Unconvertible s v

namespace CompiledFunction

/-- An input of another shape than the first key has, or one that no key equals. -/
def Unmatched (stops : List (Stop ν)) (v : Value ν) : Prop :=
  (∃ first, stops.head? = some first ∧ v.shape ≠ (Value.ofJson first.key).shape) ∨
    ∀ stop ∈ stops, ¬ stop.Matches v

/-- The contexts in which a function has no answer: there is no input, or one that the rule cannot
use; in a composite function there is no zoom, or the function of no zoom has an answer. -/
inductive Unanswered (s : PropertySpec ν) (env : Env ν) : FunctionParameters ν → Prop
  | missing {p : FunctionParameters ν} : p.isComposite = false → input? p env = none →
    Unanswered s env p
  | notNumber {p : FunctionParameters ν} : p.isComposite = false →
    ruleOf p s = .ok .exponential ∨ ruleOf p s = .ok .interval →
    (input? p env).bind Value.asNumber? = none → Unanswered s env p
  | unmatched {p : FunctionParameters ν} {v : Value ν} : p.isComposite = false →
    ruleOf p s = .ok .categorical → input? p env = some v → Unmatched p.stops v →
    Unanswered s env p
  | unconvertible {p : FunctionParameters ν} {v : Value ν} : p.isComposite = false →
    ruleOf p s = .ok .identity → input? p env = some v → s.Unconvertible v → Unanswered s env p
  | zoomless {p : FunctionParameters ν} : p.isComposite = true → env.globals.zoom = none →
    Unanswered s env p
  | everywhere {p : FunctionParameters ν} {groups : List (ν × List (Stop ν))} :
    p.isComposite = true → regroup 0 [] p.stops = .ok groups →
    (∀ g ∈ groups, Unanswered s env (groupParameters p g.2)) → Unanswered s env p

theorem Unanswered.groups {s : PropertySpec ν} {env : Env ν} {p : FunctionParameters ν} {zoom : ν}
    (unanswered : Unanswered s env p) (composite : p.isComposite = true)
    (zoomed : env.globals.zoom = some zoom) : ∃ groups, regroup 0 [] p.stops = .ok groups ∧
      ∀ g ∈ groups, Unanswered s env (groupParameters p g.2) := by
  cases unanswered with
  | missing simple => cases simple.symm.trans composite
  | notNumber simple => cases simple.symm.trans composite
  | unmatched simple => cases simple.symm.trans composite
  | unconvertible simple => cases simple.symm.trans composite
  | zoomless _ zoomless => cases zoomless.symm.trans zoomed
  | everywhere _ regrouped all => exact ⟨_, regrouped, all⟩

/-! ## Inputs that texts spell -/

/-- The definitions of one input that are asked in a context: the definition itself, or those of the
groups of a composite definition at a zoom. -/
inductive Asked (env : Env ν) : FunctionParameters ν → FunctionParameters ν → Prop
  | self {p : FunctionParameters ν} : p.isComposite = false → Asked env p p
  | group {p q : FunctionParameters ν} {groups : List (ν × List (Stop ν))}
    {g : ν × List (Stop ν)} : p.isComposite = true → env.globals.zoom.isSome = true →
    regroup 0 [] p.stops = .ok groups → g ∈ groups → Asked env (groupParameters p g.2) q →
    Asked env p q

theorem Asked.exists_group {p q : FunctionParameters ν} {env : Env ν}
    {groups : List (ν × List (Stop ν))} (asked : Asked env p q) (composite : p.isComposite = true)
    (regrouped : regroup 0 [] p.stops = .ok groups)
    (simple : ∀ g ∈ groups, (groupParameters p g.2).isComposite = false) :
    ∃ g ∈ groups, q = groupParameters p g.2 := by
  cases asked with
  | self notComposite => cases notComposite.symm.trans composite
  | @group _ _ _ g _ _ regrouped' mem within =>
    cases Except.ok.inj (regrouped.symm.trans regrouped')
    cases within with
    | self => exact ⟨g, mem, rfl⟩
    | group nested => cases (simple g mem).symm.trans nested

/-- A rule that looks its input up by text takes it for no other value.  Categories are plain data
with numbers that read back, and for an input of the shape of the first key neither does a key spell
the input nor the input a key; no text allowed for an `enum` spells an input that is no text. -/
structure TellsApart (p : FunctionParameters ν) (s : PropertySpec ν) (v : Value ν) : Prop where
  legible : ruleOf p s = .ok .categorical → Scalar.Legible ν
  input : ruleOf p s = .ok .categorical → v.IsInput
  plain : ruleOf p s = .ok .categorical → ∀ stop ∈ p.stops, (Value.ofJson stop.key).Plain
  keys : ruleOf p s = .ok .categorical →
    (∀ first ∈ p.stops.head?, v.shape = (Value.ofJson first.key).shape) → ∀ stop ∈ p.stops,
      ¬ (Value.ofJson stop.key).Spells v ∧ ¬ v.Spells (.ofJson stop.key)
  allowed : ruleOf p s = .ok .identity → s.typeName = "enum" → v.lookupText ∈ s.enumValues →
    v.shape = .string

end CompiledFunction

namespace PropertySpec

variable {s : PropertySpec ν} {v : Value ν}

theorem identity?_of_enum (isEnum : s.typeName = "enum") (v : Value ν) :
    s.identity? v = if v.lookupText ∈ s.enumValues then some v else none := by
  simp [identity?, isEnum, hasEnumValue]

theorem unconvertible_of_identity?_eq_none (none : s.identity? v = none) : s.Unconvertible v := by
  by_cases isEnum : s.typeName = "enum"
  · rw [identity?_of_enum isEnum] at none
    refine .notAllowed isEnum fun text allowed => ?_
    rintro rfl
    have passes : (Value.string text : Value ν).lookupText ∈ s.enumValues := allowed
    rw [if_pos passes] at none
    cases none
  · unfold identity? at none
    split at none
    · rename_i nothing
      obtain rfl : v = .null := by cases v <;> simp [Value.isNull] at nothing ⊢
      exact .null isEnum
    · split at none
      · rename_i isColor
        refine .color isColor fun text => ?_
        rintro rfl
        simpa [Value.asString?] using none
      · cases none
      · cases none
      · rename_i named
        exact .unparsed (by simp [named]) none
      · rename_i named
        exact .unparsed (by simp [named]) none
      · rename_i named
        exact .unparsed (by simp [named]) none
      · rename_i named
        exact absurd named isEnum
      · refine .otherType (by simp_all) fun same => ?_
        rw [if_pos same] at none
        cases none

theorem Unconvertible.identity?_eq_none (unconvertible : s.Unconvertible v)
    (texts : s.typeName = "enum" → v.lookupText ∈ s.enumValues → v.shape = .string) :
    s.identity? v = none := by
  cases unconvertible with
  | null notEnum => simp [identity?, Value.isNull, notEnum]
  | color isColor unread =>
    have unread :
        (v.asString?.bind Color.ofText?).map Value.color = (none : Option (Value ν)) := by
      cases v with
      | string text => simp [Value.asString?, unread text rfl]
      | _ => rfl
    simp [identity?, isColor, unread]
  | unparsed named unread =>
    simp only [List.mem_cons, List.not_mem_nil, or_false] at named
    rcases named with named | named | named <;> simp [identity?, named, unread]
  | notAllowed isEnum refused =>
    rw [identity?_of_enum isEnum]
    refine if_neg fun allowed => ?_
    cases v with
    | string text => exact refused text allowed rfl
    | _ => cases texts isEnum allowed
  | otherType other differs =>
    unfold identity?
    split
    · rfl
    · split <;> first | exact if_neg differs | simp_all

/-- Where no allowed text spells an input that is no text, an input gives way just where it cannot
be taken over. -/
theorem identity?_eq_none_iff
    (texts : s.typeName = "enum" → v.lookupText ∈ s.enumValues → v.shape = .string) :
    s.identity? v = none ↔ s.Unconvertible v :=
  ⟨unconvertible_of_identity?_eq_none, fun unconvertible => unconvertible.identity?_eq_none texts⟩

end PropertySpec

/-- Properties that hold the lower output between stops, and numbers in exact arithmetic in which
zero times anything is zero. -/
def PropertySpec.BlendsEqual (s : PropertySpec ν) : Prop :=
  s.isInterpolatable = false ∨ s.typeName = "number" ∧ Scalar.Exact ν ∧ ∀ t : ν, 0 * t = 0

theorem PropertySpec.BlendsEqual.blend_self {s : PropertySpec ν} (equal : s.BlendsEqual)
    {j : Json ν} {a : Value ν} (parsed : s.parseValue? j = some a) (space : ColorSpace) (t : ν) :
    s.blend space a a t = a := by
  unfold blend
  rcases equal with holds | ⟨number, exactly, zeroMul⟩
  · rw [holds]
    rfl
  · obtain ⟨noColor, noColors⟩ := (yields_of_number number).parsed j a parsed
    split
    · exact Value.blend_self zeroMul space noColor noColors t
    · rfl

namespace StopFunction

variable {p : FunctionParameters ν} {s : PropertySpec ν} {type : FunctionType} {space : ColorSpace}
  {f : StopFunction ν}

theorem orDefault_none (made : make p s type space = .ok f) :
    f.orDefault none = (p.default.or s.default).bind s.parseValue? := by
  obtain ⟨table, default, _, resolved, rfl⟩ := eq_of_make made
  exact PropertySpec.default_eq resolved

theorem evaluate_none (made : make p s type space = .ok f) :
    f.evaluate none = (p.default.or s.default).bind s.parseValue? := by
  rw [← orDefault_none made, evaluate]
  cases f.table <;> rfl

theorem evaluate_notNumber (made : make p s type space = .ok f)
    (rule : type = .exponential ∨ type = .interval) {input : Option (Value ν)}
    (notNumber : input.bind Value.asNumber? = none) :
    f.evaluate input = (p.default.or s.default).bind s.parseValue? := by
  have standsIn := orDefault_none made
  obtain ⟨table, default, tableMade, resolved, rfl⟩ := eq_of_make made
  obtain ⟨values, rfl⟩ := StopTable.exists_numeric_of_make tableMade rule
  simpa only [evaluate, notNumber] using standsIn

theorem evaluate_unmatched (made : make p s .categorical space = .ok f) {v : Value ν}
    (looked : (∀ first ∈ p.stops.head?, v.shape = (Value.ofJson first.key).shape) →
      ∀ stop ∈ p.stops,
        (v.lookupText == (Value.ofJson stop.key).lookupText) = true ↔ stop.Matches v)
    (unmatched : CompiledFunction.Unmatched p.stops v) :
    f.evaluate (some v) = (p.default.or s.default).bind s.parseValue? := by
  obtain ⟨first, starts, _, found⟩ := evaluate_of_make made
  rw [found]
  by_cases shapes : v.shape = (Value.ofJson first.key).shape
  · have looked := looked fun first' starts' =>
      Option.some.inj (starts.symm.trans starts') ▸ shapes
    rcases unmatched with ⟨first', starts', differ⟩ | missed
    · cases starts.symm.trans starts'
      exact absurd shapes differ
    · rw [if_pos shapes, find?_lookupText_eq_none looked missed]
      rfl
  · rw [if_neg shapes]
    rfl

theorem evaluate_identity (made : make p s .identity space = .ok f) (input : Option (Value ν)) :
    f.evaluate input =
      (input.bind s.identity?).or ((p.default.or s.default).bind s.parseValue?) := by
  rw [← orDefault_none made]
  obtain ⟨table, default, tableMade, _, rfl⟩ := eq_of_make made
  cases StopTable.made_of_make tableMade with
  | direct => exact Option.or_assoc
  | numeric rule => simp at rule

theorem evaluate_unconvertible (made : make p s .identity space = .ok f) {v : Value ν}
    (unconvertible : s.identity? v = none) :
    f.evaluate (some v) = (p.default.or s.default).bind s.parseValue? := by
  rw [evaluate_identity made, Option.bind_some, unconvertible, Option.none_or]

end StopFunction

namespace CompiledFunction

variable {p : FunctionParameters ν} {s : PropertySpec ν} {f : CompiledFunction ν} {env : Env ν}

/-- What a composite function yields at a zoom: the output of one of its functions, or the blend of
two. -/
theorem CompositeParts.evaluate_cases (parts : CompositeParts p s f)
    (composite : p.isComposite = true) {zoom : ν} (zoomed : env.globals.zoom = some zoom) :
    (∃ stop ∈ parts.stops, f.evaluate env = stop.2.evaluate env) ∨
      ∃ lower ∈ parts.stops, ∃ upper ∈ parts.stops, ∃ t, f.evaluate env =
        (lower.2.evaluate env).bind fun a =>
          (upper.2.evaluate env).map fun b => s.blend parts.space a b t := by
  have inRange := selectStop_inRange (parts.stops.map (·.1)) zoom
    (by simpa using parts.stops_ne_nil composite)
  rw [List.length_map] at inRange
  rw [congrArg (evaluate env) parts.eq_composite, evaluate, zoomed]
  simp only [evaluateAt_eq]
  cases selected : selectStop (parts.stops.map (·.1)) zoom with
  | only i =>
    rw [selected] at inRange
    left
    refine ⟨parts.stops[i], List.getElem_mem inRange, ?_⟩
    simp only [List.getElem?_eq_getElem inRange, Option.bind_some]
  | between i lower upper =>
    rw [selected] at inRange
    right
    have inside : i + 1 < parts.stops.length := inRange
    refine ⟨parts.stops[i], List.getElem_mem _, parts.stops[i + 1], List.getElem_mem inside,
      Curve.linear.factor zoom lower upper, ?_⟩
    simp only [List.getElem?_eq_getElem inside,
      List.getElem?_eq_getElem (Nat.lt_of_succ_lt inside), Option.bind_some]
    cases (parts.stops[i]).2.evaluate env with
    | none => rfl
    | some a => cases (parts.stops[i + 1]).2.evaluate env <;> rfl

theorem CompositeParts.evaluate_zoomless (parts : CompositeParts p s f)
    (zoomless : env.globals.zoom = none) :
    f.evaluate env = (p.default.or s.default).bind s.parseValue? := by
  obtain ⟨default, resolved, fallback⟩ := parts.resolved
  rw [congrArg (evaluate env) parts.eq_composite, evaluate, zoomless, fallback]
  exact PropertySpec.default_eq resolved

theorem TellsApart.looked {v : Value ν} (apart : TellsApart p s v)
    (rule : ruleOf p s = .ok .categorical)
    (shapes : ∀ first ∈ p.stops.head?, v.shape = (Value.ofJson first.key).shape) :
    ∀ stop ∈ p.stops,
      (v.lookupText == (Value.ofJson stop.key).lookupText) = true ↔ stop.Matches v := by
  intro stop mem
  have := apart.legible rule
  exact Stop.lookupText_iff_matches (apart.plain rule stop mem) (apart.input rule)
    (apart.keys rule shapes stop mem)

theorem evaluate_simple_unanswered {type : FunctionType} {space : ColorSpace}
    (simple : p.isComposite = false) (ruled : ruleOf p s = .ok type)
    (made : compileSimple p s type space = .ok f)
    (apart : ∀ v, input? p env = some v → TellsApart p s v) (unanswered : Unanswered s env p) :
    f.evaluate env = (p.default.or s.default).bind s.parseValue? := by
  obtain ⟨g, made, evaluated⟩ := evaluate_eq_of_compileSimple made env
  rw [evaluated]
  cases unanswered with
  | missing _ missing =>
    rw [missing]
    exact StopFunction.evaluate_none made
  | notNumber _ rule notNumber =>
    rw [ruled] at rule
    exact StopFunction.evaluate_notNumber made (rule.imp Except.ok.inj Except.ok.inj) notNumber
  | unmatched _ rule taken unmatched =>
    cases Except.ok.inj (ruled.symm.trans rule)
    rw [taken]
    exact StopFunction.evaluate_unmatched made ((apart _ taken).looked rule) unmatched
  | unconvertible _ rule taken unconvertible =>
    cases Except.ok.inj (ruled.symm.trans rule)
    rw [taken]
    exact StopFunction.evaluate_unconvertible made
      ((PropertySpec.identity?_eq_none_iff ((apart _ taken).allowed rule)).mpr unconvertible)
  | zoomless composite => cases simple.symm.trans composite
  | everywhere composite => cases simple.symm.trans composite

/-- A composite function of which all functions yield one result yields that result, if blending it
with itself keeps it. -/
theorem CompositeParts.evaluate_uniform (parts : CompositeParts p s f)
    (composite : p.isComposite = true) {zoom : ν} (zoomed : env.globals.zoom = some zoom)
    {result : Option (Value ν)} (each : ∀ stop ∈ parts.stops, stop.2.evaluate env = result)
    (steady : ∀ v, result = some v → ∀ t, s.blend parts.space v v t = v) :
    f.evaluate env = result := by
  rcases parts.evaluate_cases composite zoomed with
    ⟨stop, mem, evaluated⟩ | ⟨lower, lowerMem, upper, upperMem, t, evaluated⟩
  · rw [evaluated, each stop mem]
  · rw [evaluated, each lower lowerMem, each upper upperMem]
    cases held : result with
    | none => rfl
    | some v => exact congrArg some (steady v held t)

theorem evaluate_of_unanswered (compiled : compile p s = .ok f)
    (apart : ∀ q v, Asked env p q → input? q env = some v → TellsApart q s v)
    (unanswered : Unanswered s env p)
    (equal : p.isComposite = true → env.globals.zoom.isSome = true → s.BlendsEqual) :
    f.evaluate env = (p.default.or s.default).bind s.parseValue? := by
  revert apart unanswered equal
  refine compile_induction (motive := fun p f =>
    (∀ q v, Asked env p q → input? q env = some v → TellsApart q s v) → Unanswered s env p →
    (p.isComposite = true → env.globals.zoom.isSome = true → s.BlendsEqual) →
    f.evaluate env = (p.default.or s.default).bind s.parseValue?) ?_ ?_ compiled
  · intro p f type space simple ruled _ made apart unanswered _
    exact evaluate_simple_unanswered simple ruled made (fun v => apart p v (.self simple))
      unanswered
  · intro p f parts composite each apart unanswered equal
    cases zoomed : env.globals.zoom with
    | none => exact parts.evaluate_zoomless zoomed
    | some zoom =>
      have equal : s.BlendsEqual := equal composite (by rw [zoomed]; rfl)
      obtain ⟨groups, regrouped, all⟩ := unanswered.groups composite zoomed
      cases Except.ok.inj (parts.regrouped.symm.trans regrouped)
      apply parts.evaluate_uniform composite zoomed
      · intro stop mem
        obtain ⟨g, gMem, holds⟩ := each stop mem
        refine holds (fun q v within => apart q v ?_) (all g gMem) fun _ _ => equal
        exact .group composite (by rw [zoomed]; rfl) parts.regrouped gMem within
      · intro v yields t
        obtain ⟨j, _, parsed⟩ := Option.bind_eq_some_iff.mp yields
        exact equal.blend_self parsed parts.space t

theorem CompositeParts.exists_evaluate (parts : CompositeParts p s f)
    (composite : p.isComposite = true)
    (given : p.default.isSome = true ∨ s.default.isSome = true)
    (each : ∀ stop ∈ parts.stops, ∃ v, stop.2.evaluate env = some v) :
    ∃ v, f.evaluate env = some v := by
  cases zoomed : env.globals.zoom with
  | none =>
    obtain ⟨default, resolved, _⟩ := parts.resolved
    obtain ⟨v, stands⟩ := PropertySpec.exists_default resolved given
    exact ⟨v, by rw [parts.evaluate_zoomless zoomed, ← PropertySpec.default_eq resolved, stands]⟩
  | some zoom =>
    rcases parts.evaluate_cases composite zoomed with
      ⟨stop, mem, evaluated⟩ | ⟨lower, lowerMem, upper, upperMem, t, evaluated⟩
    · rw [evaluated]
      exact each stop mem
    · obtain ⟨a, atLower⟩ := each lower lowerMem
      obtain ⟨b, atUpper⟩ := each upper upperMem
      refine ⟨s.blend parts.space a b t, ?_⟩
      rw [evaluated, atLower, atUpper]
      rfl

theorem exists_evaluate_of_default (compiled : compile p s = .ok f)
    (given : p.default.isSome = true ∨ s.default.isSome = true) :
    ∃ v, f.evaluate env = some v := by
  revert given
  refine compile_induction (motive := fun p f => p.default.isSome = true ∨
    s.default.isSome = true → ∃ v, f.evaluate env = some v) ?_ ?_ compiled
  · intro p f type space _ _ _ made given
    obtain ⟨g, made, evaluated⟩ := evaluate_eq_of_compileSimple made env
    rw [evaluated]
    exact StopFunction.exists_evaluate made given _
  · intro p f parts composite each given
    refine parts.exists_evaluate composite given ?_
    intro stop mem
    obtain ⟨g, _, holds⟩ := each stop mem
    exact holds given

/-- A function without an answer yields the default, as long as the definitions that are asked take
their input for no other value, and a composite one at a zoom as long as blends of equal outputs are
that output.  A function with a default always yields something. -/
theorem evaluate_default (compiled : compile p s = .ok f) (env : Env ν) :
    ((∀ q v, Asked env p q → input? q env = some v → TellsApart q s v) → Unanswered s env p →
      (p.isComposite = true → env.globals.zoom.isSome = true → s.BlendsEqual) →
      f.evaluate env = (p.default.or s.default).bind s.parseValue?) ∧
    (p.default.isSome = true ∨ s.default.isSome = true → ∃ v, f.evaluate env = some v) :=
  ⟨evaluate_of_unanswered compiled, exists_evaluate_of_default compiled⟩

def featureNamed (name : String) : Env Float :=
  ⟨⟨some (Scalar.ofInt 2), none⟩, some ⟨none, none, [("p", .str name)]⟩⟩

theorem namesWithDefault_regroup : regroup 0 [] namesWithDefault.stops =
    .ok [((Scalar.ofInt 1 : Float), [⟨.str "a", .str "x"⟩]),
      (Scalar.ofInt 3, [⟨.str "b", .str "y"⟩])] := rfl

theorem namesWithDefault_tellsApart (name : String) {q : FunctionParameters Float}
    {v : Value Float} (asked : Asked (featureNamed name) namesWithDefault q)
    (taken : input? q (featureNamed name) = some v) : TellsApart q (.ofType "string") v := by
  have apart (key output : String) : TellsApart
      (groupParameters namesWithDefault [⟨.str key, .str output⟩]) (.ofType "string")
      (.string name) := by
    refine ⟨fun _ => inferInstance, fun _ => Or.inl (.string name), fun _ => ?_, fun _ _ => ?_,
      fun identity => by cases identity⟩
    · exact List.forall_mem_singleton.mpr (.string key)
    · exact List.forall_mem_singleton.mpr ⟨fun spells => spells.1 rfl, fun spells => spells.1 rfl⟩
  obtain ⟨g, mem, rfl⟩ := asked.exists_group rfl namesWithDefault_regroup (by decide)
  cases Option.some.inj taken
  simp only [List.mem_cons, List.not_mem_nil, or_false] at mem
  rcases mem with rfl | rfl <;> exact apart _ _

/-- Names of categories by zoom, of which none is that of the input, and heights that features do
not have. -/
theorem evaluate_default_of_names_and_heights :
    (∃ f, compile namesWithDefault (.ofType "string") = .ok f ∧
      f.evaluate (featureNamed "c") = some (.string "z")) ∧
    ∃ f, compile ownHeights { PropertySpec.ofType "number" with default := some (.int 7) } = .ok f ∧
      ∀ zoom : ℝ, f.evaluate ⟨⟨some zoom, none⟩, none⟩ = some (.number (Scalar.ofInt 7)) := by
  constructor
  · obtain ⟨f, compiled⟩ : ∃ f, compile namesWithDefault (.ofType "string") = .ok f := ⟨_, rfl⟩
    refine ⟨f, compiled,
      (evaluate_default compiled (featureNamed "c")).1 ?_ ?_ fun _ _ => Or.inl rfl⟩
    · intro q v asked taken
      exact namesWithDefault_tellsApart "c" asked taken
    · refine .everywhere rfl namesWithDefault_regroup ?_
      refine List.forall_mem_cons.mpr ⟨?_, List.forall_mem_singleton.mpr ?_⟩
      · exact .unmatched rfl rfl rfl (Or.inr (List.forall_mem_singleton.mpr (by decide +kernel)))
      · exact .unmatched rfl rfl rfl (Or.inr (List.forall_mem_singleton.mpr (by decide +kernel)))
  · obtain ⟨f, compiled⟩ := ownHeights_compile (some (.int 7))
    refine ⟨f, compiled, ?_⟩
    intro zoom
    have equal : PropertySpec.BlendsEqual
        { (PropertySpec.ofType "number" : PropertySpec ℝ) with default := some (.int 7) } := by
      refine Or.inr ⟨rfl, inferInstance, ?_⟩
      intro t
      exact (congrArg (fun zero => zero * t) Scalar.real_zero).trans
        ((zero_mul t).trans Scalar.real_zero.symm)
    refine
      (evaluate_default compiled _).1 ?_ (.everywhere rfl ownHeights_regroup ?_) fun _ _ => equal
    · intro q v asked taken
      obtain ⟨g, _, rfl⟩ := asked.exists_group rfl ownHeights_regroup
        (List.forall_mem_cons.mpr ⟨rfl, List.forall_mem_singleton.mpr rfl⟩)
      cases taken
    · refine List.forall_mem_cons.mpr ⟨?_, List.forall_mem_singleton.mpr ?_⟩
      · exact .missing rfl rfl
      · exact .missing rfl rfl

def oneAndTextTwo : FunctionParameters Float where
  typeName := some "categorical"
  property := some "p"
  base := none
  colorSpace := none
  default := some (.str "d")
  stops := [⟨.int 1, .str "a"⟩, ⟨.str "2", .str "b"⟩]

def featureWithTwo : Env Float := ⟨.blank, some ⟨none, none, [("p", .int 2)]⟩⟩

/-- A text key that spells a number answers for it where no key equals it and the default is due. -/
theorem text_key_answers_for_default : ∃ f, compile oneAndTextTwo (.ofType "string") = .ok f ∧
    Unanswered (.ofType "string") featureWithTwo oneAndTextTwo ∧
    (oneAndTextTwo.default.or (PropertySpec.ofType "string").default).bind
      (PropertySpec.ofType "string").parseValue? = some (.string "d") ∧
    f.evaluate featureWithTwo = some (.string "b") := by
  refine ⟨_, rfl, .unmatched rfl rfl rfl (Or.inr ?_), rfl, rfl⟩
  exact List.forall_mem_cons.mpr
    ⟨by decide +kernel, List.forall_mem_singleton.mpr (by decide +kernel)⟩

end CompiledFunction

end MapStyle
