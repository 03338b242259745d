import MapStyle.Proofs.Compile.Comparisons
import MapStyle.Proofs.Compile.Siblings

/-!
# The arguments of a `let`

Which argument of a form is compiled, how often and where, is seen by letting each argument leave a
note when it is compiled: a compilation that succeeds finds nothing wrong, so that afterwards the
notes are all that it has added.  Of the arguments of a `let` the values are compiled once each, as
bindings, and the last argument once, as the body.  With an odd number of arguments the last one
stands after the pairs.  With an even number it is the value of the last pair as well; the form is
compiled all the same.
-/

set_option autoImplicit false

namespace MapStyle

/-! ## Compilations that always succeed -/

namespace Compiling

/-- A compilation that has the same result whatever was found wrong before and that reports when it
has none: where it succeeds once it always succeeds, and finds nothing wrong. -/
theorem SameResult.always {α : Type} {m : Compiling α} (same : SameResult m m) {path : List Nat}
    {R : α → Prop} (reports : m.Reports path R) {ds ds' : List Diagnostic} {a : α}
    (done : m ds = some (some a, ds')) (before : List Diagnostic) :
    m before = some (some a, before) := by
  have result : m.result? before = some a :=
    (same before ds).trans (result?_eq_some.mpr ⟨ds', done⟩)
  obtain ⟨after, doneHere⟩ := result?_eq_some.mp result
  rcases reports before with ⟨b, _, adds⟩ | ⟨new, _, _, stopped⟩
  · cases adds.symm.trans doneHere
    exact adds
  · cases stopped.symm.trans doneHere

end Compiling

variable {ν : Type}

theorem annotate_reports (site : Site ν) (expected : Ty) (e : Expr ν) :
    (annotate site expected e).MayReport False site.path fun _ => True := by
  unfold annotate
  split
  · exact .yields trivial
  · split
    · exact .yields trivial
    · split
      · exact .yields trivial
      · exact .fails [] _

namespace Compiler

variable [Platform ν]

theorem settle_reports (r : Registry ν) (site : Site ν) (e : Expr ν) :
    ((ofRegistry r).settle site e).Reports site.path fun _ => True := by
  have finishes (e : Expr ν) : (foldConstant site e).MayReport False site.path fun _ => True :=
    (foldConstant_reports False site e).weaken fun _ _ => trivial
  unfold settle
  split
  · exact ((annotate_reports site _ e).andThen fun e _ => finishes e).reports id
  · exact (finishes e).reports id

theorem settle_sameResult (r : Registry ν) (site : Site ν) (e : Expr ν) :
    Compiling.SameResult ((ofRegistry r).settle site e) ((ofRegistry r).settle site e) := by
  unfold settle
  split
  · exact .bind (annotate_sameResult _ e) foldConstant_sameResult
  · exact foldConstant_sameResult e

theorem compile_always {j : Json ν} {site : Site ν} {ds ds' : List Diagnostic} {e : Expr ν}
    (compiled : (usual ν).compile j site ds = some (some e, ds')) (before : List Diagnostic) :
    (usual ν).compile j site before = some (some e, before) :=
  (compile_sameResult Registry.isStandard_standard j site.path site.path site.scope
    site.expected).always (operand_reporting j site) compiled before

theorem settle_always {site : Site ν} {ds ds' : List Diagnostic} {e e' : Expr ν}
    (settled : (usual ν).settle site e ds = some (some e', ds')) (before : List Diagnostic) :
    (usual ν).settle site e before = some (some e', before) :=
  (settle_sameResult _ site e).always (settle_reports _ site e) settled before

end Compiler

/-! ## Visits to arguments -/

/-- An operand that leaves a note each time it is compiled. -/
def Operand.noting (o : Operand ν) (note : Site ν → Diagnostic) : Operand ν :=
  { o with compile := fun site ds => o.compile site (ds ++ [note site]) }

theorem Operand.compile_noting {o : Operand ν} {site : Site ν} {e : Expr ν}
    (always : ∀ ds, o.compile site ds = some (some e, ds)) (note : Site ν → Diagnostic)
    (ds : List Diagnostic) : (o.noting note).compile site ds = some (some e, ds ++ [note site]) :=
  always (ds ++ [note site])

def notingFrom (note : Nat → Site ν → Diagnostic) : Nat → List (Operand ν) → List (Operand ν)
  | _, [] => []
  | position, o :: rest => o.noting (note position) :: notingFrom note (position + 1) rest

theorem length_notingFrom (note : Nat → Site ν → Diagnostic) (args : List (Operand ν))
    (position : Nat) : (notingFrom note position args).length = args.length := by
  induction args generalizing position with
  | nil => rfl
  | cons o rest ih => rw [notingFrom, List.length_cons, ih, List.length_cons]

theorem getLast?_notingFrom (note : Nat → Site ν → Diagnostic) {args : List (Operand ν)}
    {o : Operand ν} (last : args.getLast? = some o) (position : Nat) :
    (notingFrom note (position + 1) args).getLast? =
      some (o.noting (note (position + args.length))) := by
  induction args generalizing position with
  | nil => cases last
  | cons first rest ih =>
    cases rest with
    | nil =>
      obtain rfl : first = o := Option.some.inj last
      rfl
    | cons second rest =>
      rw [List.getLast?_cons_cons] at last
      have later := ih last (position + 1)
      have place : position + 1 + (second :: rest).length =
          position + (first :: second :: rest).length := by
        simp only [List.length_cons]
        omega
      rw [notingFrom, notingFrom, List.getLast?_cons_cons, ← notingFrom, later, place]

/-- A form compiles to an expression by compiling exactly the arguments at some positions, each at
its site and in this order. -/
def Compiler.CompilesVisiting [Platform ν] (c : Compiler ν) (name : String) (args : List (Json ν))
    (site : Site ν) (e : Expr ν) (visits : List (Nat × Site ν)) : Prop :=
  ∀ (note : Nat → Site ν → Diagnostic) (ds : List Diagnostic),
    c.apply ⟨name, notingFrom note 1 (args.map c.operand), c.scalar⟩ site ds =
      some (some e, ds ++ visits.map fun visit => note visit.1 visit.2)

/-! ## Names and values in turn -/

/-- A letter, a digit or the underscore of the basic Latin alphabet. -/
def Char.IsOfName (c : Char) : Prop :=
  ('a' ≤ c ∧ c ≤ 'z') ∨ ('A' ≤ c ∧ c ≤ 'Z') ∨ ('0' ≤ c ∧ c ≤ '9') ∨ c = '_'

theorem isOfName_of_isBindable {name : String} (bindable : Operator.isBindable name = true) :
    ∀ c ∈ name.toList, Char.IsOfName c := by
  intro c mem
  have allowed : (c.isUpper || c.isLower || c.isDigit || decide (c = '_')) = true :=
    List.all_eq_true.mp bindable c mem
  rw [Bool.or_eq_true, Bool.or_eq_true, Bool.or_eq_true, decide_eq_true_eq] at allowed
  rcases allowed with ((upper | lower) | digit) | underscore
  · exact Or.inr (Or.inl (of_decide_eq_true upper))
  · obtain ⟨low, high⟩ := Bool.and_eq_true_iff.mp lower
    exact Or.inl ⟨of_decide_eq_true low, of_decide_eq_true high⟩
  · obtain ⟨low, high⟩ := Bool.and_eq_true_iff.mp digit
    exact Or.inr (Or.inr (Or.inl ⟨of_decide_eq_true low, of_decide_eq_true high⟩))
  · exact Or.inr (Or.inr (Or.inr underscore))

def Json.namesAndValues (pairs : List (String × Json ν)) : List (Json ν) :=
  Operator.inTurn (pairs.map fun p => (.str p.1, p.2))

theorem Json.length_namesAndValues (pairs : List (String × Json ν)) :
    (namesAndValues pairs).length = 2 * pairs.length := by
  rw [namesAndValues, Operator.length_inTurn, List.length_map]

theorem Json.getLast?_namesAndValues (pairs : List (String × Json ν)) :
    (namesAndValues pairs).getLast? = pairs.getLast?.map (·.2) := by
  induction pairs with
  | nil => rfl
  | cons p rest ih =>
    cases rest with
    | nil => rfl
    | cons q rest =>
      show (.str p.1 :: p.2 :: namesAndValues (q :: rest)).getLast? = _
      rw [List.getLast?_cons_cons, List.getLast?_cons_cons, ← ih]
      rfl

/-- The visits to some number of values from a position on: each as an argument of any type. -/
def valueVisits (site : Site ν) (position count : Nat) : List (Nat × Site ν) :=
  (List.range' position count 2).map fun k => (k, site.child k none)

theorem map_fst_valueVisits (site : Site ν) (position count : Nat) :
    (valueVisits site position count).map (·.1) = List.range' position count 2 := by
  simp [valueVisits, Function.comp_def]

namespace Compiler

variable [Platform ν] {site : Site ν}

/-- Arguments from a position on whose names are bound to what their values compile to, each value
being compiled once; what stands after the pairs is not compiled. -/
structure Binds (site : Site ν) (position : Nat) (args : List (Json ν))
    (pairs : List (String × Json ν)) (rest : List (Json ν)) (bound : List (String × Expr ν)) :
    Prop where
  arguments : args = Json.namesAndValues pairs ++ rest
  names : ∀ p ∈ pairs, ∀ c ∈ p.1.toList, Char.IsOfName c
  values : List.Forall₂ (fun p b => p.1 = b.1 ∧ (usual ν).Yields p.2 site.scope none b.2)
    pairs bound
  visits : ∀ (note : Nat → Site ν → Diagnostic) (ds : List Diagnostic),
    Operator.bindings site position (notingFrom note position (args.map (usual ν).operand)) ds =
      some (some bound, ds ++ (valueVisits site (position + 1) pairs.length).map fun visit =>
        note visit.1 visit.2)

/-- What `bindings` succeeds on: pairs, and at most one argument after them. -/
theorem binds_of_bindings : (args : List (Json ν)) → (position : Nat) →
    {ds ds' : List Diagnostic} → {bound : List (String × Expr ν)} →
    Operator.bindings site position (args.map (usual ν).operand) ds = some (some bound, ds') →
    ∃ pairs rest, rest.length ≤ 1 ∧ Binds site position args pairs rest bound
  | [], position, ds, ds', bound, done => by
    obtain rfl : [] = bound := Compiling.eq_of_pure done
    refine ⟨[], [], Nat.zero_le 1, rfl, nofun, .nil, fun note ds => ?_⟩
    exact congrArg (fun after => some (some [], after)) (List.append_nil ds).symm
  | [j], position, ds, ds', bound, done => by
    obtain rfl : [] = bound := Compiling.eq_of_pure done
    refine ⟨[], [j], Nat.le_refl 1, rfl, nofun, .nil, fun note ds => ?_⟩
    exact congrArg (fun after => some (some [], after)) (List.append_nil ds).symm
  | name :: value :: later, position, ds, ds', bound, done => by
    simp only [List.map_cons, Operator.bindings, operand_json] at done
    split at done
    · rename_i n
      split at done
      · rename_i bindable
        obtain ⟨e, ds₁, doneValue, done⟩ := Compiling.bind_eq_some done
        obtain ⟨more, ds₂, doneMore, done⟩ := Compiling.bind_eq_some done
        obtain rfl : (n, e) :: more = bound := Compiling.eq_of_pure done
        obtain ⟨pairs, rest, short, binds⟩ := binds_of_bindings later (position + 2) doneMore
        have compiled : (usual ν).compile value (site.child (position + 1) none) ds =
            some (some e, ds₁) := doneValue
        refine ⟨(n, value) :: pairs, rest, short, ?_, ?_, ?_, fun note before => ?_⟩
        · rw [binds.arguments]
          rfl
        · intro p mem
          rcases List.mem_cons.mp mem with rfl | mem
          · exact isOfName_of_isBindable bindable
          · exact binds.names p mem
        · exact .cons ⟨rfl, _, ds, ds₁, compiled⟩ binds.values
        · have noted := Operand.compile_noting (o := (usual ν).operand value)
            (compile_always compiled) (note (position + 1)) before
          simp only [List.map_cons, notingFrom, Operator.bindings]
          simp only [Operand.noting, operand_json, if_pos bindable]
          refine (Compiling.bind_of_some _ noted).trans ?_
          refine (Compiling.bind_of_some _ (binds.visits note _)).trans ?_
          simp [valueVisits, List.range'_succ, Compiling.pure_run]
      · cases done
    · cases done

section

variable {args rest : List (Json ν)} {pairs : List (String × Json ν)} {position : Nat}
  {bound : List (String × Expr ν)} {body : Json ν}

theorem Binds.length (binds : Binds site position args pairs rest bound) :
    args.length = 2 * pairs.length + rest.length := by
  rw [binds.arguments, List.length_append, Json.length_namesAndValues]

/-- With an odd number of arguments one is left after the pairs, and it is the last. -/
theorem Binds.body_after (binds : Binds site position args pairs rest bound)
    (short : rest.length ≤ 1) (last : args.getLast? = some body) (odd : args.length % 2 = 1) :
    args = Json.namesAndValues pairs ++ [body] ∧
      ((valueVisits site 2 pairs.length).map (·.1) ++ [args.length]).Nodup := by
  have length := binds.length
  obtain ⟨j, rfl⟩ := List.length_eq_one_iff.mp (show rest.length = 1 by omega)
  have isLast : args.getLast? = some j := by
    rw [binds.arguments, List.getLast?_concat]
  obtain rfl : j = body := Option.some.inj (isLast.symm.trans last)
  refine ⟨binds.arguments, ?_⟩
  rw [map_fst_valueVisits, length]
  refine List.nodup_append.mpr ⟨List.nodup_range' 2 (by decide), List.pairwise_singleton _ _, ?_⟩
  intro k mem k' mem' same
  obtain ⟨i, _, isPlace⟩ := List.mem_range'.mp mem
  have isLast := List.mem_singleton.mp mem'
  simp only [List.length_singleton] at isLast
  omega

/-- With an even number none is left, so the last argument is the value of the last pair. -/
theorem Binds.body_within (binds : Binds site position args pairs rest bound)
    (short : rest.length ≤ 1) (last : args.getLast? = some body) (even : args.length % 2 = 0) :
    args = Json.namesAndValues pairs ∧ (pairs.getLast?.map (·.2)) = some body ∧
      args.length ∈ (valueVisits site 2 pairs.length).map (·.1) := by
  have length := binds.length
  obtain rfl := List.length_eq_zero_iff.mp (show rest.length = 0 by omega)
  have isPairs : args = Json.namesAndValues pairs := by
    rw [binds.arguments, List.append_nil]
  have notEmpty : args ≠ [] := by
    rintro rfl
    cases last
  have positive : 0 < args.length := List.length_pos_iff.mpr notEmpty
  refine ⟨isPairs, ?_, ?_⟩
  · rw [← Json.getLast?_namesAndValues, ← isPairs, last]
  · rw [map_fst_valueVisits, length]
    refine List.mem_range'.mpr ⟨pairs.length - 1, ?_, ?_⟩ <;>
      simp only [List.length_nil] at length ⊢ <;> omega

end

/-- A `let` form with some pairs and a body as it compiles at a site: the values in the scope of the
form, once each; after them the body once, for the type expected of the form and with the names
bound; and nothing else. -/
structure CompilesLet (site : Site ν) (args : List (Json ν)) (pairs : List (String × Json ν))
    (body : Json ν) (bound : List (String × Expr ν)) (e : Expr ν) : Prop where
  nonempty : pairs ≠ []
  names : ∀ p ∈ pairs, ∀ c ∈ p.1.toList, Char.IsOfName c
  values : List.Forall₂ (fun p b => p.1 = b.1 ∧ (usual ν).Yields p.2 site.scope none b.2)
    pairs bound
  body : ∃ inner, (usual ν).Yields body (site.scope.extend bound) site.expected inner ∧
    ∀ ds, (usual ν).settle site (.letIn bound inner) ds = some (some e, ds)
  visits : (usual ν).CompilesVisiting "let" args site e (valueVisits site 2 pairs.length ++
    [(args.length, (site.child args.length site.expected).binding bound)])

omit [Platform ν] in
theorem letIn_eq {f : Form ν} {body : Operand ν} (enough : ¬ f.args.length < 3)
    (last : f.args.getLast? = some body) (site : Site ν) : Operator.letIn f site = (do
      let bound ← Operator.bindings site 1 f.args
      let e ← body.compile ((site.child f.args.length site.expected).binding bound)
      pure (.letIn bound e)) := by
  rw [Operator.letIn, if_neg enough, last]

theorem visiting_of_binds {args : List (Json ν)} {pairs : List (String × Json ν)}
    {rest : List (Json ν)} {body : Json ν} {bound : List (String × Expr ν)} {inner e : Expr ν}
    (binds : Binds site 1 args pairs rest bound) (enough : ¬ args.length < 3)
    (last : args.getLast? = some body)
    (compiled : ∀ ds, ((usual ν).operand body).compile
      ((site.child args.length site.expected).binding bound) ds = some (some inner, ds))
    (settled : ∀ ds, (usual ν).settle site (.letIn bound inner) ds = some (some e, ds)) :
    (usual ν).CompilesVisiting "let" args site e (valueVisits site 2 pairs.length ++
      [(args.length, (site.child args.length site.expected).binding bound)]) := by
  intro note before
  have length : (notingFrom note 1 (args.map (usual ν).operand)).length = args.length := by
    rw [length_notingFrom, List.length_map]
  have lastNoted : (notingFrom note 1 (args.map (usual ν).operand)).getLast? =
      some (((usual ν).operand body).noting (note args.length)) := by
    have isLast : (args.map (usual ν).operand).getLast? = some ((usual ν).operand body) := by
      rw [List.getLast?_map, last, Option.map_some]
    have noted := getLast?_notingFrom note isLast 0
    simpa only [List.length_map, Nat.zero_add] using noted
  have named : (usual ν).registry.get? "let" = some Operator.letIn :=
    Registry.get?_standard (b := .letIn) rfl
  have noted := Operand.compile_noting compiled (note args.length)
  simp only [apply, named]
  rw [letIn_eq (length ▸ enough) lastNoted]
  refine (Compiling.bind_of_some _ ?_).trans (settled _)
  refine (Compiling.bind_of_some _ (binds.visits note before)).trans ?_
  simp only [length]
  refine (Compiling.bind_of_some _ (noted _)).trans ?_
  simp only [Compiling.pure_run, List.map_append, List.map_cons, List.map_nil, List.append_assoc]

/-- A `let` form that compiles binds names of letters, digits and underscores, at least one, to its
values.  If the number of its arguments is odd it is the pairs and one body after them, and every
argument that is compiled is compiled once.  If the number is even there is nothing after the pairs:
the last value is the body as well. -/
theorem let_compiles_pairs {args : List (Json ν)} {ds ds' : List Diagnostic} {e : Expr ν}
    (compiled : (usual ν).compile (.arr (.str "let" :: args)) site ds = some (some e, ds')) :
    ∃ pairs body bound, CompilesLet site args pairs body bound e ∧
      (args.length % 2 = 1 → args = Json.namesAndValues pairs ++ [body] ∧
        ((valueVisits site 2 pairs.length).map (·.1) ++ [args.length]).Nodup) ∧
      (args.length % 2 = 0 → args = Json.namesAndValues pairs ∧
        (pairs.getLast?.map (·.2)) = some body ∧
        args.length ∈ (valueVisits site 2 pairs.length).map (·.1)) := by
  have named : (usual ν).registry.get? "let" = some Operator.letIn :=
    Registry.get?_standard (b := .letIn) rfl
  rw [compile_form_eq named] at compiled
  obtain ⟨node, ds₁, parsed, settled⟩ := Compiling.bind_eq_some compiled
  simp only [Operator.letIn, List.length_map, List.getLast?_map] at parsed
  by_cases few : args.length < 3
  · rw [if_pos few] at parsed
    cases parsed
  rw [if_neg few] at parsed
  cases last : args.getLast? with
  | none =>
    rw [last] at parsed
    cases parsed
  | some body =>
    simp only [last, Option.map_some] at parsed
    obtain ⟨bound, ds₂, doneBindings, parsed⟩ := Compiling.bind_eq_some parsed
    obtain ⟨inner, ds₃, doneBody, parsed⟩ := Compiling.bind_eq_some parsed
    obtain rfl : .letIn bound inner = node := Compiling.eq_of_pure parsed
    obtain ⟨pairs, rest, short, binds⟩ := binds_of_bindings args 1 doneBindings
    have length := binds.length
    refine ⟨pairs, body, bound, ⟨?_, binds.names, binds.values, ?_, ?_⟩, ?_, ?_⟩
    · rintro rfl
      simp only [List.length_nil] at length
      omega
    · exact ⟨inner, ⟨_, ds₂, ds₃, doneBody⟩, settle_always settled⟩
    · have compiledBody : (usual ν).compile body
          ((site.child args.length site.expected).binding bound) ds₂ = some (some inner, ds₃) :=
        doneBody
      exact visiting_of_binds binds few last (compile_always compiledBody) (settle_always settled)
    · exact binds.body_after short last
    · exact binds.body_within short last

theorem let_compiles_pairs_of_two_names :
    ∃ pairs body bound e, CompilesLet (.root none)
      [.str "a", .int 1, .str "b", .bool true, .arr [.str "var", .str "b"]] pairs body bound e ∧
      (pairs : List (String × Json Float)).length = 2 ∧ body = .arr [.str "var", .str "b"] := by
  obtain ⟨e, compiled⟩ : ∃ e, (usual Float).compile
      (.arr (.str "let" :: [.str "a", .int 1, .str "b", .bool true, .arr [.str "var", .str "b"]]))
      (.root none) [] = some (some e, []) := ⟨_, rfl⟩
  obtain ⟨pairs, body, bound, compiles, odd, _⟩ := let_compiles_pairs compiled
  obtain ⟨isForm, _⟩ := odd rfl
  have length := congrArg List.length isForm
  rw [List.length_append, Json.length_namesAndValues] at length
  have isLast := congrArg List.getLast? isForm
  rw [List.getLast?_concat] at isLast
  refine ⟨pairs, body, bound, e, compiles, ?_, (Option.some.inj isLast).symm⟩
  simp only [List.length_cons, List.length_nil] at length
  omega

def twoPairs : List (Json Float) := [.str "a", .int 1, .str "b", .int 2]

/-- Two pairs without a body compile: the value at 4 is compiled as a binding and again as the
body, although the arguments are no pairs with a body after them. -/
theorem pairs_without_body_compile :
    (usual Float).compile (.arr (.str "let" :: twoPairs)) (.root none) [] =
        some (some (.literal (.number 2) .number), []) ∧
      (¬ ∃ pairs body, twoPairs = Json.namesAndValues pairs ++ [body]) ∧
      ∃ visits, (usual Float).CompilesVisiting "let" twoPairs (.root none)
        (.literal (.number 2) .number) visits ∧ visits.map (·.1) = [2, 4, 4] := by
  refine ⟨rfl, ?_, ?_⟩
  · rintro ⟨pairs, body, isForm⟩
    have length := congrArg List.length isForm
    rw [List.length_append, Json.length_namesAndValues] at length
    simp only [twoPairs, List.length_cons, List.length_nil] at length
    omega
  · refine ⟨[(2, ⟨[2], .empty, none⟩), (4, ⟨[4], .empty, none⟩),
      (4, ⟨[4], Scope.empty.extend [("a", .literal (.number 1) .number),
        ("b", .literal (.number 2) .number)], none⟩)], fun note ds => ?_, rfl⟩
    show some (_, ((ds ++ [note 2 ⟨[2], .empty, none⟩]) ++ [note 4 ⟨[4], .empty, none⟩]) ++ [_]) = _
    simp only [List.append_assoc, List.cons_append, List.nil_append, List.map_cons, List.map_nil]
    rfl

end Compiler

end MapStyle
