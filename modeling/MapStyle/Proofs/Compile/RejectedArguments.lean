import MapStyle.Proofs.Compile.Siblings

/-!
# Arguments that have no result

Which of the argument expressions of a form that have no result are reported.  Every operator but
`index-of` reports one of them at most; `index-of` reports needle and haystack, and leaves the start
of the search aside.
-/

set_option autoImplicit false

namespace MapStyle

variable {ν : Type} [Platform ν]

/-- A document that has no result at any site. -/
def Json.Rejected (j : Json ν) : Prop :=
  ∀ (site : Site ν) ds, ∃ after,
    ((Compiler.ofRegistry .standard).compile j site).run ds = some (none, after)

/-- The curves of an interpolation: linear, or exponential with a number for its base. -/
def Json.IsCurve (j : Json ν) : Prop :=
  (∃ more, j = .arr (.str "linear" :: more)) ∨
    ∃ base more x, j = .arr (.str "exponential" :: base :: more) ∧ base.asNumber? = some x

/-- The forms of the operators that compile several arguments, with as many arguments as they take
and with the names, labels and curve in order; and which documents are argument expressions of the
form, at which positions. -/
inductive Arguments : String → List (Json ν) → (Nat → Json ν → Prop) → Prop
  | indexOf {args} (arity : args.length = 2 ∨ args.length = 3) :
    Arguments "index-of" args fun k j => ∃ n, k = n + 1 ∧ args[n]? = some j
  | compare {name c args} (symbol : Comparison.ofSymbol? name = some c)
    (arity : args.length = 2 ∨ args.length = 3) :
    Arguments name args fun k j => ∃ n, k = n + 1 ∧ args[n]? = some j
  | get {args} (arity : args.length = 1 ∨ args.length = 2) :
    Arguments "get" args fun k j => ∃ n, k = n + 1 ∧ args[n]? = some j
  | letIn {bound body} (nonempty : bound ≠ []) (named : ∀ b ∈ bound, Operator.IsName b.1) :
    Arguments "let" (Operator.inTurn bound ++ [body]) fun k j =>
      (∃ n b, k = 2 * n + 2 ∧ bound[n]? = some b ∧ j = b.2) ∨
        k = 2 * bound.length + 1 ∧ j = body
  | interpolate {name curve input stops}
    (named : name ∈ ["interpolate", "interpolate-hcl", "interpolate-lab"]) (shape : curve.IsCurve)
    (nonempty : stops ≠ []) (ascend : Operator.LabelsAscend none (stops.map (·.1))) :
    Arguments name (curve :: input :: Operator.inTurn stops) fun k j =>
      k = 2 ∧ j = input ∨ ∃ n s, k = 2 * n + 4 ∧ stops[n]? = some s ∧ j = s.2
  | assert {name t args} (asserted : Operator.assertedType? name = some t) (nonempty : args ≠ []) :
    Arguments name args fun k j => ∃ n, k = n + 1 ∧ args[n]? = some j
  | array {arg} : Arguments "array" [arg] fun k j => k = 1 ∧ j = arg
  | arrayOf {item t arg} (typed : Operator.itemType? item = some t) :
    Arguments "array" [item, arg] fun k j => k = 2 ∧ j = arg
  | arrayOfLength {item t length size args} (typed : Operator.itemType? item = some t)
    (sized : Operator.length? length = some size) (nonempty : args ≠ []) :
    Arguments "array" (item :: length :: args) fun k j => ∃ n, k = n + 3 ∧ args[n]? = some j

theorem Json.Rejected.never {j : Json ν} (rejected : j.Rejected) (site : Site ν) :
    ((Compiler.ofRegistry .standard).compile j site).Never := by
  intro ds a after done
  obtain ⟨_, stopped⟩ := rejected site ds
  cases stopped.symm.trans done

theorem Json.Rejected.stuck {j : Json ν} (rejected : j.Rejected) :
    ((Compiler.ofRegistry .standard).operand j).Stuck :=
  fun site => (Compiler.operand_reporting j site).never (rejected.never site)

theorem Json.IsCurve.curve_eq {j : Json ν} (shape : j.IsCurve) (c : Compiler ν) :
    ∃ curve, Operator.curve [c.operand j] = .ok curve := by
  rcases shape with ⟨more, rfl⟩ | ⟨base, more, x, rfl, number⟩
  · exact ⟨.linear, rfl⟩
  · exact ⟨.exponential x, by simp [Operator.curve, Compiler.operand_json, number]⟩

namespace Arguments

variable {name : String} {args : List (Json ν)} {argument : Nat → Json ν → Prop}
  {first second : Json ν} {i j : Nat}

omit [Platform ν] in
theorem found_operand {n : Nat} {j : Json ν} (c : Compiler ν) (found : args[n]? = some j) :
    (args.map c.operand)[n]? = some (c.operand j) := by
  rw [List.getElem?_map, found]
  rfl

omit [Platform ν] in
theorem earlier {n m p : Nat} {j : Json ν} (found : args[n]? = some j) (le : m ≤ n) :
    m + p ≤ n + p ∧ ∃ a n', m + p = n' + p ∧ args[n']? = some a := by
  have inside : n < args.length := (List.getElem?_eq_some_iff.mp found).1
  exact ⟨Nat.add_le_add_right le p, args[m], m, rfl, List.getElem?_eq_getElem (by omega)⟩

theorem reporting_of_mem (args : List (Json ν)) :
    ∀ o ∈ args.map (Compiler.ofRegistry .standard).operand, o.Reporting := by
  intro o mem
  obtain ⟨a, _, rfl⟩ := List.mem_map.mp mem
  exact Compiler.operand_reporting a

theorem letIn_stops {bound : List (Json ν × Json ν)} {body : Json ν}
    (named : ∀ b ∈ bound, Operator.IsName b.1) {n : Nat} {binding : Json ν × Json ν}
    (found : bound[n]? = some binding) (rejected : binding.2.Rejected) (site : Site ν) :
    ((Compiler.ofRegistry .standard).compile
      (.arr (.str "let" :: (Operator.inTurn bound ++ [body]))) site).StopsAmong site.path fun k =>
      k ≤ 2 * n + 2 ∧ ∃ a,
        (∃ n b, k = 2 * n + 2 ∧ bound[n]? = some b ∧ a = b.2) ∨
          k = 2 * bound.length + 1 ∧ a = body := by
  rw [Compiler.compile_form (Registry.get?_standard (b := .letIn) rfl), List.map_append,
    Operator.inTurn_map]
  refine .stops (Operator.letIn_stops ?_ (n := n) (by rw [List.getElem?_map, found]; rfl)
    rejected.stuck ?_)
  · intro b mem
    obtain ⟨b', mem', rfl⟩ := List.mem_map.mp mem
    refine ⟨?_, Compiler.operand_reporting b'.2⟩
    rw [Compiler.operand_json]
    exact named b' mem'
  · intro k le
    have inside : n < bound.length := (List.getElem?_eq_some_iff.mp found).1
    exact ⟨by omega, _, Or.inl ⟨k, bound[k], rfl, List.getElem?_eq_getElem (by omega), rfl⟩⟩

theorem interpolate_stops {curve input : Json ν} {pairs : List (Json ν × Json ν)}
    (named : name ∈ ["interpolate", "interpolate-hcl", "interpolate-lab"]) (shape : curve.IsCurve)
    (nonempty : pairs ≠ []) (ascend : Operator.LabelsAscend none (pairs.map (·.1)))
    (isFirst : i = 2 ∧ first = input ∨ ∃ n s, i = 2 * n + 4 ∧ pairs[n]? = some s ∧ first = s.2)
    (rejected : first.Rejected) (site : Site ν) :
    ((Compiler.ofRegistry .standard).compile
      (.arr (.str name :: curve :: input :: Operator.inTurn pairs)) site).StopsAmong site.path
        fun k => k ≤ i ∧ ∃ a,
          k = 2 ∧ a = input ∨ ∃ n s, k = 2 * n + 4 ∧ pairs[n]? = some s ∧ a = s.2 := by
  have named : Builtin.named.reverse.lookup name = some .interpolate := by
    simp only [List.mem_cons, List.not_mem_nil, or_false] at named
    rcases named with rfl | rfl | rfl <;> rfl
  obtain ⟨shape, shaped⟩ := shape.curve_eq (.ofRegistry .standard)
  rw [Compiler.compile_form (Registry.get?_standard named), List.map_cons, List.map_cons,
    Operator.inTurn_map]
  refine .stops (Operator.interpolate_stops shaped (by simpa using nonempty) ?_
    (Compiler.operand_reporting input) ?_ ?_ ⟨?_, input, Or.inl ⟨rfl, rfl⟩⟩)
  · simpa only [List.map_map, Function.comp_def, Compiler.operand_json] using ascend
  · intro o mem
    obtain ⟨s, _, rfl⟩ := List.mem_map.mp mem
    exact Compiler.operand_reporting s.2
  · rcases isFirst with ⟨rfl, rfl⟩ | ⟨n, stop, rfl, found, rfl⟩
    · exact Or.inl rejected.stuck
    · refine Or.inr ⟨_, n, by rw [List.getElem?_map, found]; rfl, rejected.stuck, ?_⟩
      intro k le
      have inside : n < pairs.length := (List.getElem?_eq_some_iff.mp found).1
      exact ⟨by omega, _, Or.inr ⟨k, pairs[k], rfl, List.getElem?_eq_getElem (by omega), rfl⟩⟩
  · rcases isFirst with ⟨rfl, rfl⟩ | ⟨n, stop, rfl, found, rfl⟩ <;> omega

/-- Of argument expressions without a result, all but one are left aside by every operator but
`index-of`: the form stops at the first argument in which it finds a fault. -/
theorem stops (form : Arguments name args argument) (other : name ≠ "index-of")
    (isFirst : argument i first) (isSecond : argument j second) (before : i < j)
    (rejected : first.Rejected) (site : Site ν) :
    ((Compiler.ofRegistry .standard).compile (.arr (.str name :: args)) site).StopsAmong site.path
      fun k => k ≤ i ∧ ∃ a, argument k a := by
  cases form with
  | indexOf => exact absurd rfl other
  | compare symbol arity =>
    obtain ⟨n, rfl, found⟩ := isFirst
    obtain ⟨m, rfl, foundSecond⟩ := isSecond
    have inside : m < args.length := (List.getElem?_eq_some_iff.mp foundSecond).1
    have named : Builtin.named.reverse.lookup name = some .compare := by
      unfold Comparison.ofSymbol? at symbol
      split at symbol <;> first | rfl | exact nomatch symbol
    rw [Compiler.compile_form (Registry.get?_standard named)]
    refine .stops (Operator.compare_stops symbol (by simpa using arity) (reporting_of_mem args)
      (found_operand _ found) rejected.stuck (by omega) ?_)
    intro k le
    exact earlier found le
  | get arity =>
    obtain ⟨n, rfl, found⟩ := isFirst
    obtain ⟨m, rfl, foundSecond⟩ := isSecond
    have inside : m < args.length := (List.getElem?_eq_some_iff.mp foundSecond).1
    rw [Compiler.compile_form (Registry.get?_standard (b := .get) rfl)]
    match args, n, arity with
    | [key, object], 0, _ =>
      obtain rfl := Option.some.inj found
      show (Operator.get ⟨"get", [_, _], (Compiler.ofRegistry .standard).scalar⟩ site >>=
        _).StopsAmong _ _
      exact .stops (Operator.get_stops rejected.stuck (earlier (p := 1) found (Nat.le_refl 0)))
    | [key], _, _ | [key, object], n + 1, _ =>
      simp only [List.length_cons, List.length_nil] at inside
      omega
  | @letIn bound body nonempty named =>
    rcases isFirst with ⟨n, binding, rfl, found, rfl⟩ | ⟨rfl, rfl⟩
    · exact letIn_stops named found rejected site
    · rcases isSecond with ⟨n, binding, rfl, found, rfl⟩ | ⟨rfl, rfl⟩
      · have inside : n < bound.length := (List.getElem?_eq_some_iff.mp found).1
        omega
      · omega
  | interpolate named shape nonempty ascend =>
    exact interpolate_stops named shape nonempty ascend isFirst rejected site
  | assert asserted nonempty =>
    obtain ⟨n, rfl, found⟩ := isFirst
    have named : Builtin.named.reverse.lookup name = some .assert := by
      unfold Operator.assertedType? at asserted
      split at asserted <;> first | rfl | exact nomatch asserted
    rw [Compiler.compile_form (Registry.get?_standard named)]
    refine .stops (Operator.assert_stops asserted (reporting_of_mem args) (found_operand _ found)
      rejected.stuck ?_)
    intro k le
    exact earlier found le
  | array => omega
  | arrayOf => omega
  | arrayOfLength typed sized nonempty =>
    obtain ⟨n, rfl, found⟩ := isFirst
    rw [Compiler.compile_form (Registry.get?_standard (b := .assert) rfl)]
    refine .stops (Operator.assertArray_stops (by rwa [Compiler.operand_json])
      (by rwa [Compiler.operand_json]) (reporting_of_mem _) (found_operand _ found)
      rejected.stuck ?_)
    intro k le
    exact earlier found le

/-- A search of which needle or haystack has no result reports each of them that has none, and
never its start. -/
theorem indexOf_stops (arity : args.length = 2 ∨ args.length = 3) {n : Nat}
    (isFirst : args[n]? = some first) (early : n < 2) (rejected : first.Rejected) (site : Site ν)
    (ds : List Diagnostic) :
    ∃ new, ((Compiler.ofRegistry .standard).compile (.arr (.str "index-of" :: args)) site).run ds =
        some (none, ds ++ new) ∧
      (∀ k a, args[k]? = some a → a.Rejected → k < 2 →
        ∃ d ∈ new, site.path ++ [k + 1] <+: d.path) ∧
      ∀ d ∈ new, ¬ site.path ++ [3] <+: d.path := by
  match args, arity with
  | needle :: haystack :: more, arity =>
    have never : (((Compiler.ofRegistry .standard).operand needle).compile
          (site.child 1 (some .value))).Never ∨
        (((Compiler.ofRegistry .standard).operand haystack).compile
          (site.child 2 (some .value))).Never := by
      match n, early with
      | 0, _ => exact Or.inl ((Option.some.inj isFirst ▸ rejected.never) _)
      | 1, _ => exact Or.inr ((Option.some.inj isFirst ▸ rejected.never) _)
    obtain ⟨ofNeedle, ofHaystack, stopped, belowNeedle, belowHaystack, some, someMore⟩ :=
      Compiling.Reports.both_stops (Compiler.operand_reporting needle (site.child 1 _))
        (Compiler.operand_reporting haystack (site.child 2 _)) never ds
    refine ⟨ofNeedle ++ ofHaystack, ?_, ?_, ?_⟩
    · rw [Compiler.compile_form (Registry.get?_standard (b := .indexOf) rfl)]
      match more, arity with
      | [], _ | [start], _ =>
        exact Compiling.bind_of_none (Compiling.bind_of_none (Compiling.bind_of_none stopped))
    · intro k a found aRejected inside
      match k, inside with
      | 0, _ =>
        have rejected : needle.Rejected := Option.some.inj found ▸ aRejected
        obtain ⟨d, mem⟩ := List.exists_mem_of_ne_nil _ (some (rejected.never _))
        exact ⟨d, List.mem_append_left _ mem, belowNeedle d mem⟩
      | 1, _ =>
        have rejected : haystack.Rejected := Option.some.inj found ▸ aRejected
        obtain ⟨d, mem⟩ := List.exists_mem_of_ne_nil _ (someMore (rejected.never _))
        exact ⟨d, List.mem_append_right _ mem, belowHaystack d mem⟩
    · intro d mem
      rcases List.mem_append.mp mem with mem | mem
      · exact Compiling.not_below_other (belowNeedle d mem) (by decide)
      · exact Compiling.not_below_other (belowHaystack d mem) (by decide)

end Arguments

/-- Of two argument expressions of a form that have no result at any site, the first is reported
unless one before it is at fault.  The second goes unreported under every operator but `index-of`,
and under it where it is the start of the search. -/
theorem reported_among_rejected {name : String} {args : List (Json ν)}
    {argument : Nat → Json ν → Prop} (form : Arguments name args argument) {first second : Json ν}
    {i j : Nat} (isFirst : argument i first) (isSecond : argument j second) (before : i < j)
    (rejected : first.Rejected) (alsoRejected : second.Rejected) (site : Site ν)
    (ds : List Diagnostic) :
    ∃ new, new ≠ [] ∧
      ((Compiler.ofRegistry .standard).compile (.arr (.str name :: args)) site).run ds =
        some (none, ds ++ new) ∧
      (name ≠ "index-of" → (∃ k a, k ≤ i ∧ argument k a ∧ ∀ d ∈ new, site.path ++ [k] <+: d.path) ∧
        ∀ d ∈ new, ¬ site.path ++ [j] <+: d.path) ∧
      (name = "index-of" → (∃ d ∈ new, site.path ++ [i] <+: d.path) ∧
        ((∃ d ∈ new, site.path ++ [j] <+: d.path) ↔ j = 2)) := by
  by_cases other : name = "index-of"
  · cases form with
    | indexOf arity =>
      obtain ⟨n, rfl, found⟩ := isFirst
      obtain ⟨m, rfl, foundSecond⟩ := isSecond
      have inside : m < args.length := (List.getElem?_eq_some_iff.mp foundSecond).1
      obtain ⟨new, stopped, reports, omitsStart⟩ :=
        Arguments.indexOf_stops arity found (by omega) rejected site ds
      obtain ⟨d, mem, below⟩ := reports n first found rejected (by omega)
      refine ⟨new, List.ne_nil_of_mem mem, stopped, fun different => absurd rfl different,
        fun _ => ⟨⟨d, mem, below⟩, ?_⟩⟩
      rcases (by omega : m = 1 ∨ m = 2) with rfl | rfl
      · exact iff_of_true (reports 1 second foundSecond alsoRejected (by decide)) rfl
      · refine iff_of_false ?_ (by decide)
        rintro ⟨d, mem, below⟩
        exact omitsStart d mem below
    | compare symbol => cases other ▸ symbol
    | get | letIn | array | arrayOf | arrayOfLength => exact absurd other (by decide)
    | interpolate named =>
      rw [other] at named
      exact absurd named (by decide)
    | assert asserted => cases other ▸ asserted
  · rcases form.stops other isFirst isSecond before rejected site ds with
      ⟨_, impossible, _⟩ | ⟨k, new, ⟨le, a, isArgument⟩, nonempty, below, stopped⟩
    · exact impossible.elim
    · refine ⟨new, nonempty, stopped, fun _ => ⟨⟨k, a, le, isArgument, below⟩, ?_⟩,
        fun same => absurd same other⟩
      intro d mem
      exact Compiling.not_below_other (below d mem) (by omega)

def nope : Json Float := .arr [.str "nope"]

theorem nope_rejected : nope.Rejected := by
  have unknown : (Registry.standard : Registry Float).get? "nope" = none := by
    rw [Registry.standard, Registry.get?_foldl_register]
    rfl
  intro site ds
  refine ⟨ds ++ [⟨site.path ++ [0], .unknownOperator "nope"⟩], ?_⟩
  show ((Compiler.ofRegistry .standard).apply ⟨"nope", [], _⟩ site) ds = _
  simp only [Compiler.apply, Compiler.ofRegistry, unknown]
  rfl

theorem reported_among_rejected_of_comparison :
    Arguments "==" [nope, nope] (fun k j => ∃ n, k = n + 1 ∧ [nope, nope][n]? = some j) ∧
      (∃ n, 1 = n + 1 ∧ [nope, nope][n]? = some nope) ∧
      (∃ n, 2 = n + 1 ∧ [nope, nope][n]? = some nope) ∧ 1 < 2 ∧ nope.Rejected ∧
      ∃ new, new ≠ [] ∧
        ((Compiler.ofRegistry .standard).compile (.arr [.str "==", nope, nope])
          (.root none)).run [] = some (none, new) ∧ ∀ d ∈ new, ¬ [2] <+: d.path := by
  have form : Arguments "==" [nope, nope]
      (fun k j => ∃ n, k = n + 1 ∧ [nope, nope][n]? = some j) :=
    .compare (c := .eq) rfl (Or.inl rfl)
  have first : ∃ n, 1 = n + 1 ∧ [nope, nope][n]? = some nope := ⟨0, rfl, rfl⟩
  have second : ∃ n, 2 = n + 1 ∧ [nope, nope][n]? = some nope := ⟨1, rfl, rfl⟩
  obtain ⟨new, nonempty, stopped, aside, _⟩ := reported_among_rejected form first second (by decide)
    nope_rejected nope_rejected (.root none) []
  exact ⟨form, first, second, by decide, nope_rejected, new, nonempty, stopped,
    (aside (by decide)).2⟩

/-- The second operand of a comparison goes unreported, although it has no result either. -/
theorem comparison_omits_second_operand :
    Arguments "==" [nope, nope] (fun k j => ∃ n, k = n + 1 ∧ [nope, nope][n]? = some j) ∧
      nope.Rejected ∧
      ((Compiler.ofRegistry .standard).compile (.arr [.str "==", nope, nope]) (.root none)).run [] =
        some (none, [⟨[1, 0], .unknownOperator "nope"⟩]) ∧
      ¬ ∃ d ∈ [(⟨[1, 0], .unknownOperator "nope"⟩ : Diagnostic)], [2] <+: d.path := by
  refine ⟨.compare (c := .eq) rfl (Or.inl rfl), nope_rejected, ?_, by decide⟩
  rfl

end MapStyle
