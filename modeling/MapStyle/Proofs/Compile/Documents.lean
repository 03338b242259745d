import MapStyle.Proofs.Compile.Operators

/-!
# Compiling documents side by side

Compilers that share a registry of usual parse functions and differ only in how they finish an
expression: if finishing keeps expressions together, compiling does.
-/

set_option autoImplicit false

namespace MapStyle

variable {ν : Type} [Scalar ν]

/-! ## Registries of usual parse functions -/

namespace Registry

theorem IsStandard.register {r : Registry ν} (standard : r.IsStandard) (name : String)
    (b : Builtin) : (r.register name b.parse).IsStandard := by
  intro other parse mem
  rcases mem_insertMember mem with eq | mem
  · exact ⟨b, congrArg Prod.snd eq⟩
  · exact standard other parse mem

theorem isStandard_foldl (named : List (String × Builtin)) (r : Registry ν)
    (standard : r.IsStandard) :
    (named.foldl (fun r (name, b) => r.register name b.parse) r).IsStandard := by
  induction named generalizing r with
  | nil => exact standard
  | cons entry rest ih => exact ih _ (standard.register entry.1 entry.2)

theorem isStandard_standard : (standard : Registry ν).IsStandard :=
  isStandard_foldl Builtin.named empty fun _ _ mem => nomatch mem

theorem IsStandard.eq_parse {r : Registry ν} (standard : r.IsStandard) {name : String}
    {parse : ParseFn ν} (found : r.get? name = some parse) : ∃ b : Builtin, parse = b.parse :=
  standard name parse (mem_of_lookup found)

end Registry

/-! ## Scalars as forms -/

/-- A parse function that compiles no scalar that stands alone in its form. -/
def ParseFn.QuotesScalars (parse : ParseFn ν) : Prop :=
  ∀ (name : String) (o o' : Operand ν) (constant constant' : Json ν → Operand ν),
    o.json = o'.json → o.json.isObject = false →
    parse ⟨name, [o], constant⟩ = parse ⟨name, [o'], constant'⟩

/-- A registry under which the form that a scalar stands for does not compile it again. -/
def Registry.QuotesScalars (r : Registry ν) : Prop :=
  ∀ parse, r.get? "literal" = some parse → parse.QuotesScalars

def Builtin.compileScalars : List Builtin := [.assert, .get, .resolvedLocale]

theorem Builtin.parse_quotesScalars {b : Builtin} (others : b ∉ compileScalars) :
    (b.parse : ParseFn ν).QuotesScalars := by
  intro name o o' constant constant' same scalar
  funext site
  cases b with
  | literal => simp only [parse, Operator.literal, same]
  | var => simp only [parse, Operator.var, same]
  | letIn => rfl
  | indexOf => rfl
  | get => exact absurd (by decide) others
  | zoom => rfl
  | access => rfl
  | collator =>
    rw [same] at scalar
    simp only [parse, Operator.collator, same]
    cases json : o'.json with
    | obj => rw [json] at scalar; cases scalar
    | _ => rfl
  | resolvedLocale => exact absurd (by decide) others
  | compare => rfl
  | assert => exact absurd (by decide) others
  | interpolate =>
    have curves : Operator.curve [o] = Operator.curve [o'] := by
      simp only [Operator.curve, List.head?_cons, Option.map_some, same]
    simp only [parse, Operator.interpolate, curves]
    rfl

theorem Registry.quotesScalars_of_others {r : Registry ν} (standard : r.IsStandard)
    (others : ∀ b ∈ Builtin.compileScalars, r.get? "literal" ≠ some b.parse) :
    r.QuotesScalars := by
  intro parse found
  obtain ⟨b, rfl⟩ := standard.eq_parse found
  exact Builtin.parse_quotesScalars fun mem => others b mem found

variable {ι : Type} {J : Judgement ι} {C : Congruence ι ν} {inForce : (ι → Scope ν) → Prop}

theorem annotate_holds {t : Ty} {e : ι → Expr ν} (path : List Nat) (scope : ι → Scope ν)
    (around : Option Ty) (expected : Ty) (together : C.Together t e) :
    J.Holds path (C.Fits (some expected)) fun i =>
      annotate ⟨path, scope i, around⟩ expected (e i) := by
  have exactly : ∀ w : ι → Expr ν, C.Together expected w → C.Fits (some expected) w :=
    fun w h => ⟨expected, h, fun u eq => Option.some.inj eq ▸ expected.accepts_self⟩
  simp only [annotate, C.ty_eq together]
  by_cases asserted : expected.isAsserted t = true
  · simp only [asserted, if_true]
    refine J.yields (exactly _ (C.assertion expected [e] ?_))
    intro a mem
    obtain rfl := List.mem_singleton.mp mem
    exact ⟨t, together⟩
  · by_cases coerced : expected.isCoerced t = true
    · simp only [asserted, coerced, if_true]
      exact J.yields (exactly _ (C.coercion expected together))
    · by_cases accepted : expected.accepts t = true
      · simp only [asserted, coerced, accepted, if_true]
        exact J.yields ⟨t, together, fun u eq => Option.some.inj eq ▸ accepted⟩
      · simp only [asserted, coerced, accepted]
        exact J.fails [] _

/-- Compilers that share a registry of usual parse functions, and whose ways of finishing an
expression keep expressions together. -/
structure InStep (J : Judgement ι) (C : Congruence ι ν) (r : Registry ν)
    (c : ι → Compiler ν) : Prop where
  standard : r.IsStandard
  registry : ∀ i, (c i).registry = r
  quotes : J.Lenient ∨ r.QuotesScalars
  finish : ∀ {t : Ty} {e : ι → Expr ν} (path : List Nat) (scope : ι → Scope ν)
    (expected : Option Ty), C.Together t e →
    J.Holds path (C.Together t) fun i => (c i).finish ⟨path, scope i, expected⟩ (e i)

namespace Compiler

variable {r : Registry ν} {c : ι → Compiler ν}

theorem settle_holds (inStep : InStep J C r c) {e : ι → Expr ν} (path : List Nat)
    (scope : ι → Scope ν) (expected : Option Ty) (together : C.Fits none e) :
    J.Holds path (C.Fits expected) fun i => (c i).settle ⟨path, scope i, expected⟩ (e i) := by
  obtain ⟨t, together, _⟩ := together
  cases expected with
  | none =>
    exact J.weaken (inStep.finish path scope none together) fun _ => Congruence.fits_none
  | some expected =>
    refine J.andThen (annotate_holds path scope (some expected) expected together) ?_
    rintro e' ⟨u, together', accepted⟩
    exact J.weaken (inStep.finish path scope (some expected) together') fun _ h => ⟨u, h, accepted⟩

theorem apply_holds_of_parse (inStep : InStep J C r c) {f : Forms ι ν} {parse : ParseFn ν}
    (found : r.get? f.name = some parse) {path : List Nat} {scope : ι → Scope ν}
    {expected : Option Ty}
    (parsed : J.Holds path (C.Fits none) fun i => parse (f.at i) ⟨path, scope i, expected⟩) :
    J.Holds path (C.Fits expected) fun i => (c i).apply (f.at i) ⟨path, scope i, expected⟩ := by
  simp only [apply, Forms.at, inStep.registry, found]
  exact J.andThen parsed fun e together => settle_holds inStep path scope expected together

theorem apply_holds {C : Correspondence ι ν} (inStep : InStep J C.toCongruence r c)
    {f : Forms ι ν} (ready : f.Ready J C.toCongruence C.Scopes) {scope : ι → Scope ν}
    (scopes : C.Scopes scope) (path : List Nat) (expected : Option Ty) :
    J.Holds path (C.Fits expected) fun i => (c i).apply (f.at i) ⟨path, scope i, expected⟩ := by
  cases found : r.get? f.name with
  | none =>
    simp only [apply, Forms.at, inStep.registry, found]
    exact J.fails [0] _
  | some parse =>
    obtain ⟨b, rfl⟩ := inStep.standard.eq_parse found
    exact apply_holds_of_parse inStep found (b.parse_holds ready scopes)

def scalarForms (ι : Type) (compile : Site ν → Compiling (Expr ν)) (j : Json ν) : Forms ι ν :=
  ⟨"literal", [fun _ => ⟨j, compile, []⟩], fun _ k => ⟨k, compile, []⟩⟩

theorem scalarForms_ready {m : Site ν → Compiling (Expr ν)}
    (holds : ∀ (path : List Nat) (scope : ι → Scope ν) (expected : Option Ty),
      J.Holds path (C.Fits expected) fun i => m ⟨path, scope i, expected⟩)
    {j : Json ν} (number : ∀ x, j.asNumber? = some x → C.Number x) :
    (scalarForms ι m j).Ready J C inForce := by
  have ready (k : Json ν) (number : ∀ x, k.asNumber? = some x → C.Number x) :
      Ready J C inForce fun _ : ι => (⟨k, m, []⟩ : Operand ν) :=
    ⟨⟨⟨k, fun _ => rfl, number⟩, fun path scope expected _ => holds path scope expected⟩,
      [], fun _ => rfl, by simp⟩
  refine ⟨?_, fun b => (ready (.bool b) nofun).toReadable⟩
  intro o mem
  obtain rfl := List.mem_singleton.mp mem
  exact ready j number

omit [Scalar ν] in
theorem apply_scalarForms {c : Compiler ν} (quotes : c.registry.QuotesScalars) {j : Json ν}
    (scalar : j.isObject = false) (m m' : Site ν → Compiling (Expr ν)) (i : ι) :
    c.apply ((scalarForms ι m j).at i) = c.apply ((scalarForms ι m' j).at i) := by
  funext site
  unfold apply
  simp only [scalarForms, Forms.at, List.map_cons, List.map_nil]
  cases found : c.registry.get? "literal" with
  | none => rfl
  | some parse =>
    simp only [quotes parse found "literal" ⟨j, m, []⟩ ⟨j, m', []⟩ _ (fun k => ⟨k, m', []⟩) rfl
      scalar]

/-- What holds of the forms of a literal holds of scalars: either compilations are admitted that
never return, or a scalar is not compiled in its form. -/
theorem scalar_holds (inStep : InStep J C r c) {j : Json ν}
    (number : ∀ x, j.asNumber? = some x → C.Number x) (scalar : j.isObject = false)
    {path : List Nat} {scope : ι → Scope ν} {expected : Option Ty}
    (applied : ∀ f : Forms ι ν, f.name = "literal" → f.Ready J C inForce →
      J.Holds path (C.Fits expected) fun i => (c i).apply (f.at i) ⟨path, scope i, expected⟩) :
    J.Holds path (C.Fits expected) fun i => ((c i).scalar j).compile ⟨path, scope i, expected⟩ := by
  rcases inStep.quotes with lenient | quotes
  · exact applied (scalarForms ι (fun _ => .endless) j) rfl
      (scalarForms_ready (fun _ _ _ => J.endless lenient) number)
  · have fails := applied (scalarForms ι (fun site => site.fail .emptyArray) j) rfl
      (scalarForms_ready (fun _ _ _ => J.fails [] _) number)
    have same (i : ι) := apply_scalarForms (inStep.registry i ▸ quotes) scalar
      (fun site => site.fail .emptyArray) (fun _ => .endless) i
    simp only [same] at fails
    exact fails

omit [Scalar ν] in
theorem operands_eq_map (c : Compiler ν) (js : List (Json ν)) :
    c.operands js = js.map c.operand := by
  induction js with
  | nil => rfl
  | cons j rest ih => rw [operands, ih, List.map_cons]

omit [Scalar ν] in
theorem memberOperands_eq_map (c : Compiler ν) (ms : List (String × Json ν)) :
    c.memberOperands ms = ms.map fun m => (m.1, c.operand m.2) := by
  induction ms with
  | nil => rfl
  | cons m rest ih =>
    obtain ⟨k, j⟩ := m
    rw [memberOperands, ih, List.map_cons]

omit [Scalar ν] in
theorem operand_json (c : Compiler ν) (j : Json ν) : (c.operand j).json = j := by
  cases j <;> rfl

/-- Compilers for which compilations of forms fit together, where those of their arguments do;
in each of some ways in which scopes and expressions fit, and for the documents of a class that has
the parts of its documents. -/
structure FitForms {σ : Type} (J : Judgement ι) (C : σ → Congruence ι ν)
    (inForce : σ → (ι → Scope ν) → Prop) (c : ι → Compiler ν) (D : Json ν → Prop) : Prop where
  items : ∀ {js : List (Json ν)}, D (.arr js) → ∀ j ∈ js, D j
  members : ∀ {ms : List (String × Json ν)}, D (.obj ms) → ∀ m ∈ ms, D m.2
  numbers : ∀ (s : σ) {j : Json ν}, D j → ∀ x, j.asNumber? = some x → (C s).Number x
  scalar : ∀ (s : σ) (j : Json ν), (∀ x, j.asNumber? = some x → (C s).Number x) →
    j.isObject = false → Ready J (C s) (inForce s) fun i => (c i).scalar j
  form : ∀ {s : σ} {scope : ι → Scope ν} (path : List Nat) (expected : Option Ty) {name : String}
    {js : List (Json ν)}, D (.arr (.str name :: js)) →
    (∀ (s : σ), Forms.Ready J (C s) (inForce s)
      ⟨name, js.map fun j i => (c i).operand j, fun i => (c i).scalar⟩) → inForce s scope →
    J.Holds path ((C s).Fits expected) fun i =>
      (c i).apply ⟨name, js.map (c i).operand, (c i).scalar⟩ ⟨path, scope i, expected⟩

namespace FitForms

variable {σ : Type} {C : σ → Congruence ι ν} {inForce : σ → (ι → Scope ν) → Prop}
  {D : Json ν → Prop}

theorem form_holds (fit : FitForms J C inForce c D) {js : List (Json ν)} (inside : D (.arr js))
    (ready : ∀ j ∈ js, ∀ s, Ready J (C s) (inForce s) fun i => (c i).operand j) {s : σ}
    {scope : ι → Scope ν} (scopes : inForce s scope) (path : List Nat) (expected : Option Ty) :
    J.Holds path ((C s).Fits expected) fun i =>
      (c i).form ((c i).operands js) ⟨path, scope i, expected⟩ := by
  simp only [operands_eq_map]
  cases js with
  | nil => exact J.fails [] _
  | cons head rest =>
    simp only [List.map_cons, Compiler.form, operand_json]
    cases head with
    | str name =>
      refine fit.form path expected inside (fun s => ⟨?_, ?_⟩) scopes
      · intro o mem
        obtain ⟨j, jMem, rfl⟩ := List.mem_map.mp mem
        exact ready j (List.mem_cons_of_mem _ jMem) s
      · exact fun b => (fit.scalar s (.bool b) nofun rfl).toReadable
    | _ => exact J.fails [0] _

mutual

theorem operand_ready (fit : FitForms J C inForce c D) : (j : Json ν) → D j → (s : σ) →
    Ready J (C s) (inForce s) fun i => (c i).operand j
  | .arr items, inside, _ =>
    ⟨⟨⟨.arr items, fun _ => rfl, nofun⟩, fun path _ expected scopes =>
      fit.form_holds inside (operands_ready fit items (fit.items inside)) scopes path expected⟩,
      [], fun _ => rfl, by simp⟩
  | .obj members, inside, s => by
    refine ⟨⟨⟨.obj members, fun _ => rfl, nofun⟩, fun path _ expected _ => J.fails [] _⟩,
      members.map fun m => (m.1, fun i => (c i).operand m.2), fun i => ?_, ?_⟩
    · rw [operand, memberOperands_eq_map, List.map_map]
      rfl
    · intro m mem
      obtain ⟨m', mem', rfl⟩ := List.mem_map.mp mem
      exact memberOperands_ready fit members (fit.members inside) s m' mem'
  | .null, inside, s => fit.scalar s .null (fit.numbers s inside) rfl
  | .bool b, inside, s => fit.scalar s (.bool b) (fit.numbers s inside) rfl
  | .int n, inside, s => fit.scalar s (.int n) (fit.numbers s inside) rfl
  | .float x, inside, s => fit.scalar s (.float x) (fit.numbers s inside) rfl
  | .str t, inside, s => fit.scalar s (.str t) (fit.numbers s inside) rfl
termination_by structural j => j

theorem operands_ready (fit : FitForms J C inForce c D) : (js : List (Json ν)) →
    (∀ j ∈ js, D j) → ∀ j ∈ js, ∀ s, Ready J (C s) (inForce s) fun i => (c i).operand j
  | [], _, _, mem => nomatch mem
  | j :: rest, inside, j', mem => by
    rcases List.mem_cons.mp mem with eq | mem
    · rw [eq]
      exact operand_ready fit j (inside j (List.mem_cons_self ..))
    · exact operands_ready fit rest (fun k kMem => inside k (List.mem_cons_of_mem _ kMem)) j' mem
termination_by structural js => js

theorem memberOperands_ready (fit : FitForms J C inForce c D) : (ms : List (String × Json ν)) →
    (∀ m ∈ ms, D m.2) → (s : σ) → ∀ m ∈ ms, Readable J (C s) (inForce s) fun i => (c i).operand m.2
  | [], _, _, _, mem => nomatch mem
  | (k, j) :: rest, inside, s, m, mem => by
    rcases List.mem_cons.mp mem with rfl | mem
    · exact (operand_ready fit j (inside (k, j) (List.mem_cons_self ..)) s).toReadable
    · exact memberOperands_ready fit rest (fun n nMem => inside n (List.mem_cons_of_mem _ nMem)) s
        m mem
termination_by structural ms => ms

end

theorem compile_holds (fit : FitForms J C inForce c D) {j : Json ν} (inside : D j) {s : σ}
    {scope : ι → Scope ν} (scopes : inForce s scope) (path : List Nat) (expected : Option Ty) :
    J.Holds path ((C s).Fits expected) fun i => (c i).compile j ⟨path, scope i, expected⟩ :=
  (fit.operand_ready j inside s).compile path scope expected scopes

end FitForms

section Everywhere

variable {C : Correspondence ι ν}

theorem scalar_ready (inStep : InStep J C.toCongruence r c) (j : Json ν)
    (number : ∀ x, j.asNumber? = some x → C.Number x) (scalar : j.isObject = false) :
    Ready J C.toCongruence C.Scopes fun i => (c i).scalar j where
  json := ⟨j, fun _ => rfl, number⟩
  compile := fun path _ expected scopes =>
    scalar_holds inStep number scalar fun _ _ ready => apply_holds inStep ready scopes path expected
  members := ⟨[], fun _ => rfl, by simp⟩

/-- In scopes that bind the same names alike, forms of all documents fit together that have the
parts and numbers for it. -/
theorem fitForms (inStep : InStep J C.toCongruence r c) {D : Json ν → Prop}
    (items : ∀ {js : List (Json ν)}, D (.arr js) → ∀ j ∈ js, D j)
    (members : ∀ {ms : List (String × Json ν)}, D (.obj ms) → ∀ m ∈ ms, D m.2)
    (numbers : ∀ {j : Json ν}, D j → ∀ x, j.asNumber? = some x → C.Number x) :
    FitForms J (fun _ : Unit => C.toCongruence) (fun _ => C.Scopes) c D where
  items := items
  members := members
  numbers _ _ := numbers
  scalar _ := scalar_ready inStep
  form path expected name js _ ready scopes := by
    have applied := apply_holds inStep (ready ()) scopes path expected
    simpa only [Forms.at, List.map_map, Function.comp_def] using applied

/-- Compiling a document keeps expressions together, whatever the document, where nothing is asked
of its numbers. -/
theorem compile_holds (inStep : InStep J C.toCongruence r c) (anyNumber : ∀ x, C.Number x)
    (j : Json ν) {scope : ι → Scope ν} (scopes : C.Scopes scope) (path : List Nat)
    (expected : Option Ty) :
    J.Holds path (C.Fits expected) fun i => (c i).compile j ⟨path, scope i, expected⟩ := by
  have fit := fitForms (D := fun _ => True) inStep (fun _ _ _ => trivial) (fun _ _ _ => trivial)
    fun _ x _ => anyNumber x
  exact fit.compile_holds (s := ()) trivial scopes path expected

end Everywhere

end Compiler

/-! ## The usual operators by name -/

namespace Registry

theorem get?_foldl_register (named : List (String × Builtin)) (r : Registry ν) (name : String) :
    (named.foldl (fun r (name, b) => r.register name b.parse) r).get? name =
      ((named.reverse.lookup name).map Builtin.parse).or (r.get? name) := by
  induction named generalizing r with
  | nil => simp
  | cons entry rest ih =>
    obtain ⟨k, b⟩ := entry
    have registered : (r.register k b.parse).get? name =
        if name = k then some b.parse else r.get? name :=
      lookup_insertMember k b.parse r.entries name
    rw [List.foldl_cons, ih, registered, List.reverse_cons, List.lookup_append, lookup_cons_eq_ite]
    cases rest.reverse.lookup name with
    | some found => rfl
    | none => by_cases same : name = k <;> simp [same]

theorem get?_standard {name : String} {b : Builtin}
    (named : Builtin.named.reverse.lookup name = some b) :
    (standard : Registry ν).get? name = some b.parse := by
  rw [standard, get?_foldl_register, named]
  rfl

theorem get?_standard_eq (name : String) :
    (standard : Registry ν).get? name = (Builtin.named.reverse.lookup name).map Builtin.parse := by
  rw [standard, get?_foldl_register]
  exact Option.or_none

theorem quotesScalars_standard : (standard : Registry ν).QuotesScalars := by
  intro parse found
  rw [get?_standard (b := .literal) rfl] at found
  obtain rfl := Option.some.inj found
  exact Builtin.parse_quotesScalars (by decide)

end Registry

namespace Builtin

theorem eq_var_of_named {name : String} (found : named.reverse.lookup name = some .var) :
    name = "var" := by
  have mem := mem_of_lookup found
  simpa [named] using mem

theorem eq_let_of_named {name : String} (found : named.reverse.lookup name = some .letIn) :
    name = "let" := by
  have mem := mem_of_lookup found
  simpa [named] using mem

end Builtin

namespace Compiler

omit [Scalar ν] in
theorem compile_form_eq {c : Compiler ν} {name : String} {parse : ParseFn ν}
    (found : c.registry.get? name = some parse) (args : List (Json ν)) (site : Site ν) :
    c.compile (.arr (.str name :: args)) site =
      (parse ⟨name, args.map c.operand, c.scalar⟩ site >>= c.settle site) := by
  show c.form (c.operands (.str name :: args)) site = _
  simp only [operands_eq_map, List.map_cons, form, operand_json, apply, found]

omit [Scalar ν] in
theorem compile_form [Platform ν] {r : Registry ν} {name : String} {parse : ParseFn ν}
    (found : r.get? name = some parse) (args : List (Json ν)) (site : Site ν) :
    (ofRegistry r).compile (.arr (.str name :: args)) site =
      (parse ⟨name, args.map (ofRegistry r).operand, (ofRegistry r).scalar⟩ site >>=
        (ofRegistry r).settle site) :=
  compile_form_eq found args site

end Compiler

/-! ## Forms that use and bind names -/

/-- Compilers over the usual operators for which forms of `var` fit together, and forms of `let`
where their arguments do; in each of some ways in which scopes and expressions fit, and for the
documents of a class that has the parts of its documents. -/
structure FitNames {σ : Type} (J : Judgement ι) (C : σ → Congruence ι ν)
    (inForce : σ → (ι → Scope ν) → Prop) (c : ι → Compiler ν) (D : Json ν → Prop) : Prop where
  items : ∀ {js : List (Json ν)}, D (.arr js) → ∀ j ∈ js, D j
  members : ∀ {ms : List (String × Json ν)}, D (.obj ms) → ∀ m ∈ ms, D m.2
  numbers : ∀ (s : σ) {j : Json ν}, D j → ∀ x, j.asNumber? = some x → (C s).Number x
  inStep : ∀ s, InStep J (C s) .standard c
  var : ∀ {s : σ} {scope : ι → Scope ν} (path : List Nat) (expected : Option Ty)
    {js : List (Json ν)}, D (.arr (.str "var" :: js)) → inForce s scope →
    J.Holds path ((C s).Fits none) fun i =>
      Operator.var ⟨"var", js.map (c i).operand, (c i).scalar⟩ ⟨path, scope i, expected⟩
  letIn : ∀ {s : σ} {scope : ι → Scope ν} (path : List Nat) (expected : Option Ty)
    {js : List (Json ν)}, D (.arr (.str "let" :: js)) →
    (∀ s, Forms.Ready J (C s) (inForce s)
      ⟨"let", js.map fun j i => (c i).operand j, fun i => (c i).scalar⟩) → inForce s scope →
    J.Holds path ((C s).Fits none) fun i =>
      Operator.letIn ⟨"let", js.map (c i).operand, (c i).scalar⟩ ⟨path, scope i, expected⟩

namespace FitNames

variable {σ : Type} {C : σ → Congruence ι ν} {inForce : σ → (ι → Scope ν) → Prop}
  {c : ι → Compiler ν} {D : Json ν → Prop}

theorem scalar_ready (fit : FitNames J C inForce c D) (s : σ) (j : Json ν)
    (number : ∀ x, j.asNumber? = some x → (C s).Number x) (scalar : j.isObject = false) :
    Ready J (C s) (inForce s) fun i => (c i).scalar j where
  json := ⟨j, fun _ => rfl, number⟩
  compile path scope expected scopes := by
    have applied (f : Forms ι ν) (name : f.name = "literal")
        (ready : f.Ready J (C s) (inForce s)) : J.Holds path ((C s).Fits expected) fun i =>
          (c i).apply (f.at i) ⟨path, scope i, expected⟩ := by
      have named : (Registry.standard : Registry ν).get? f.name = some Builtin.literal.parse := by
        rw [name]
        exact Registry.get?_standard rfl
      exact Compiler.apply_holds_of_parse (fit.inStep s) named
        (Builtin.parse_holds_of_nameless .literal nofun nofun ready scopes)
    exact Compiler.scalar_holds (fit.inStep s) number scalar applied
  members := ⟨[], fun _ => rfl, by simp⟩

theorem fitForms (fit : FitNames J C inForce c D) : Compiler.FitForms J C inForce c D where
  items := fit.items
  members := fit.members
  numbers := fit.numbers
  scalar := fit.scalar_ready
  form {s scope} path expected {name js} inside ready scopes := by
    have each (i : ι) : (js.map fun j i => (c i).operand j).map (· i) = js.map (c i).operand := by
      simp [Function.comp_def]
    cases found : Builtin.named.reverse.lookup name with
    | none =>
      have unknown : (Registry.standard : Registry ν).get? name = none := by
        rw [Registry.get?_standard_eq, found]
        rfl
      simp only [Compiler.apply, (fit.inStep s).registry, unknown]
      exact J.fails [0] _
    | some b =>
      have parsed : J.Holds path ((C s).Fits none) fun i =>
          b.parse (Forms.at ⟨name, js.map fun j i => (c i).operand j, fun i => (c i).scalar⟩ i)
            ⟨path, scope i, expected⟩ := by
        by_cases isVar : b = .var
        · obtain rfl := isVar
          obtain rfl := Builtin.eq_var_of_named found
          simp only [Forms.at, each]
          exact fit.var path expected inside scopes
        · by_cases isLet : b = .letIn
          · obtain rfl := isLet
            obtain rfl := Builtin.eq_let_of_named found
            simp only [Forms.at, each]
            exact fit.letIn path expected inside ready scopes
          · exact b.parse_holds_of_nameless isVar isLet (ready s) scopes
      have applied := Compiler.apply_holds_of_parse (fit.inStep s)
        (f := ⟨name, js.map fun j i => (c i).operand j, fun i => (c i).scalar⟩)
        (Registry.get?_standard found) parsed
      simpa only [Forms.at, each] using applied

end FitNames

end MapStyle
