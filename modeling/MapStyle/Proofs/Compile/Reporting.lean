import MapStyle.Number.Float
import MapStyle.Proofs.Compile.Documents
import MapStyle.Proofs.Folded

/-!
# Failing and reporting

A compilation over usual parse functions that returns has no result exactly when it adds
diagnostics.  What it adds comes after the diagnostics that were there, and stands at its own path
or below it.  It returns unless the form that a scalar stands for compiles the scalar, for then that
form is made again without end.
-/

set_option autoImplicit false

namespace MapStyle

namespace Compiling

variable {α β : Type}

/-- A compilation that, where it returns, has no result exactly when it adds diagnostics; they come
last, and stand at a path or below it. -/
def ReportsFailure (path : List Nat) (m : Compiling α) : Prop :=
  ∀ ds result after, m.run ds = some (result, after) → ∃ new, after = ds ++ new ∧
    (result = none ↔ new ≠ []) ∧ ∀ d ∈ new, path <+: d.path

def Returns (m : Compiling α) : Prop := ∀ ds, ∃ result after, m.run ds = some (result, after)

/-- From some diagnostics on, a compilation either has a result with a property and adds nothing, or
has none and adds diagnostics at a path or below it. -/
def ReportsFrom (path : List Nat) (R : α → Prop) (m : Compiling α) (ds : List Diagnostic) : Prop :=
  (∃ a, R a ∧ m ds = some (some a, ds)) ∨
    ∃ new, new ≠ [] ∧ (∀ d ∈ new, path <+: d.path) ∧ m ds = some (none, ds ++ new)

def Reports (path : List Nat) (R : α → Prop) (m : Compiling α) : Prop :=
  ∀ ds, ReportsFrom path R m ds

/-- A compilation reports or, if that is admitted, never returns. -/
def MayReport (lenient : Prop) (path : List Nat) (R : α → Prop) (m : Compiling α) : Prop :=
  ∀ ds, ReportsFrom path R m ds ∨ lenient ∧ m ds = none

namespace MayReport

variable {lenient : Prop} {path : List Nat} {R : α → Prop} {S : β → Prop} {m : Compiling α}

theorem yields {a : α} (holds : R a) : MayReport lenient path R (pure a) :=
  fun _ => Or.inl (Or.inl ⟨a, holds, rfl⟩)

theorem fails (below : List Nat) (fault : Fault) :
    MayReport lenient path R fun ds => some (none, ds ++ [⟨path ++ below, fault⟩]) := by
  intro ds
  refine Or.inl (Or.inr ⟨[⟨path ++ below, fault⟩], by simp, ?_, rfl⟩)
  intro d mem
  obtain rfl := List.mem_singleton.mp mem
  exact List.prefix_append path below

theorem weaken {S : α → Prop} (reports : MayReport lenient path R m) (implies : ∀ a, R a → S a) :
    MayReport lenient path S m := by
  intro ds
  rcases reports ds with (⟨a, related, done⟩ | stopped) | runs
  · exact Or.inl (Or.inl ⟨a, implies a related, done⟩)
  · exact Or.inl (Or.inr stopped)
  · exact Or.inr runs

theorem andThen {next : α → Compiling β} (reports : MayReport lenient path R m)
    (later : ∀ a, R a → MayReport lenient path S (next a)) :
    MayReport lenient path S (m >>= next) := by
  intro ds
  rcases reports ds with (⟨a, related, done⟩ | ⟨new, nonempty, below, stopped⟩) | ⟨admitted, runs⟩
  · rw [ReportsFrom, bind_of_some next done]
    exact later a related ds
  · exact Or.inl (Or.inr ⟨new, nonempty, below, bind_of_none stopped⟩)
  · exact Or.inr ⟨admitted, bind_of_endless next runs⟩

theorem both {n : Compiling β} (first : MayReport lenient path R m)
    (second : MayReport lenient path S n) :
    MayReport lenient path (fun ab : α × β => R ab.1 ∧ S ab.2) (m.both n) := by
  intro ds
  rcases first ds with (⟨a, relatedA, doneA⟩ | ⟨new, nonempty, below, stopped⟩) | ⟨admitted, runs⟩
  · rcases second ds with (⟨b, relatedB, doneB⟩ | ⟨new, nonempty, below, stopped⟩) |
      ⟨admitted, runs⟩
    · exact Or.inl (Or.inl ⟨(a, b), ⟨relatedA, relatedB⟩, by simp [Compiling.both, doneA, doneB]⟩)
    · exact Or.inl (Or.inr ⟨new, nonempty, below, by simp [Compiling.both, doneA, stopped]⟩)
    · exact Or.inr ⟨admitted, by simp [Compiling.both, doneA, runs]⟩
  · rcases second (ds ++ new) with (⟨b, _, doneB⟩ | ⟨more, _, belowMore, stoppedB⟩) |
      ⟨admitted, runs⟩
    · exact Or.inl (Or.inr ⟨new, nonempty, below, by simp [Compiling.both, stopped, doneB]⟩)
    · refine Or.inl (Or.inr ⟨new ++ more, by simp [nonempty], ?_,
        by simp [Compiling.both, stopped, stoppedB]⟩)
      intro d mem
      rcases List.mem_append.mp mem with mem | mem
      · exact below d mem
      · exact belowMore d mem
    · exact Or.inr ⟨admitted, by simp [Compiling.both, stopped, runs]⟩
  · exact Or.inr ⟨admitted, by simp [Compiling.both, runs]⟩

theorem above {position : Nat} (reports : MayReport lenient (path ++ [position]) R m) :
    MayReport lenient path R m := by
  intro ds
  rcases reports ds with (done | ⟨new, nonempty, below, stopped⟩) | runs
  · exact Or.inl (Or.inl done)
  · refine Or.inl (Or.inr ⟨new, nonempty, ?_, stopped⟩)
    intro d mem
    exact (List.prefix_append path [position]).trans (below d mem)
  · exact Or.inr runs

theorem reports (mayReport : MayReport lenient path R m) (strict : ¬ lenient) :
    Reports path R m :=
  fun ds => (mayReport ds).resolve_right fun runs => strict runs.1

theorem reportsFailure (mayReport : MayReport lenient path R m) : ReportsFailure path m := by
  intro ds result after returned
  rcases mayReport ds with (⟨a, _, done⟩ | ⟨new, nonempty, below, stopped⟩) | ⟨_, runs⟩
  · cases done.symm.trans returned
    exact ⟨[], by simp, by simp, by simp⟩
  · cases stopped.symm.trans returned
    exact ⟨new, rfl, by simp [nonempty], below⟩
  · cases runs.symm.trans returned

end MayReport

theorem Reports.returns {path : List Nat} {R : α → Prop} {m : Compiling α}
    (reports : Reports path R m) : m.Returns := by
  intro ds
  rcases reports ds with ⟨a, _, done⟩ | ⟨new, _, _, stopped⟩
  · exact ⟨some a, ds, done⟩
  · exact ⟨none, ds ++ new, stopped⟩

end Compiling

def Judgement.reporting (lenient : Prop) : Judgement Unit where
  Holds path R m := (m ()).MayReport lenient path fun a => R fun _ => a
  yields related := Compiling.MayReport.yields related
  andThen holds later := holds.andThen fun a related => later (fun _ => a) related
  both first second := first.both second
  Lenient := lenient
  endless admitted _ := Or.inr ⟨admitted, rfl⟩
  fails := Compiling.MayReport.fails
  above _ holds := holds.above

def Correspondence.sameType (ι ν : Type) [Scalar ν] : Correspondence ι ν where
  Together t e := ∀ i, (e i).ty = t
  ty_eq together := together
  literal _ _ _ := rfl
  var _ together := together
  letIn _ together := together
  indexOf _ _ _ _ _ := rfl
  get _ _ _ _ := rfl
  zoom _ := rfl
  access _ _ := rfl
  collator _ _ _ _ _ := rfl
  resolvedLocale _ _ := rfl
  compare _ _ _ _ _ _ := rfl
  assertion _ _ _ _ := rfl
  coercion _ _ _ := rfl
  interpolate _ _ _ _ _ _ _ _ := rfl

theorem Correspondence.sameType_scopes {ι ν : Type} [Scalar ν] (scope : Scope ν) :
    (Correspondence.sameType ι ν).Scopes fun _ => scope := by
  intro name
  cases found : scope.get? name with
  | none => exact Or.inl fun _ => found
  | some e => exact Or.inr ⟨e.ty, fun _ => e, fun _ => rfl, fun _ => found⟩

variable {ν : Type} [Platform ν]

theorem foldConstant_reports (lenient : Prop) (site : Site ν) (e : Expr ν) :
    (foldConstant site e).MayReport lenient site.path fun e' => e' = e.folded := by
  by_cases passes : e.passes = true
  · rw [foldConstant_of_passes site passes]
    exact .yields rfl
  · obtain ⟨err, stopped⟩ := foldConstant_of_not_passes site passes
    rw [stopped]
    exact .fails [] (.evaluation err)

namespace Compiler

/-- Folding constants keeps expressions together that stay together when they are folded. -/
theorem inStep_reporting {C : Congruence Unit ν} {r : Registry ν} (standard : r.IsStandard)
    (folded : ∀ {t : Ty} {e : Unit → Expr ν}, C.Together t e →
      C.Together t fun _ => (e ()).folded) :
    InStep (Judgement.reporting (¬ r.QuotesScalars)) C r fun _ => ofRegistry r := by
  refine ⟨standard, fun _ => rfl, (Classical.em r.QuotesScalars).symm, ?_⟩
  intro t e path scope expected together
  have reports := foldConstant_reports (¬ r.QuotesScalars) ⟨path, scope (), expected⟩ (e ())
  refine reports.weaken ?_
  intro e' same
  subst same
  exact folded together

/-- Compiling a document reports when it has no result, in every scope, if it returns. -/
theorem compile_reports {r : Registry ν} (standard : r.IsStandard) (j : Json ν) (site : Site ν) :
    ((ofRegistry r).compile j site).MayReport (¬ r.QuotesScalars) site.path fun e =>
      ∀ t, site.expected = some t → t.accepts e.ty = true := by
  have inStep : InStep (Judgement.reporting (¬ r.QuotesScalars)) (Correspondence.sameType Unit ν) r
      fun _ => ofRegistry r :=
    inStep_reporting standard fun together i => (Expr.folded_alike _).ty.trans (together i)
  have fits : ((ofRegistry r).compile j site).MayReport (¬ r.QuotesScalars) site.path fun e =>
      (Correspondence.sameType Unit ν).Fits site.expected fun _ => e :=
    compile_holds inStep (fun _ => trivial) j (Correspondence.sameType_scopes site.scope) site.path
      site.expected
  refine fits.weaken ?_
  rintro e ⟨t, together, accepted⟩ u expected
  exact together () ▸ accepted u expected

/-! ## Scalars that are compiled without end -/

/-- Where the name `literal` stands for a parse function that compiles a scalar, no compilation of a
scalar returns. -/
theorem compile_scalar_endless {r : Registry ν} {b : Builtin}
    (compiles : b ∈ Builtin.compileScalars) (found : r.get? "literal" = some b.parse) {j : Json ν}
    (scalar : (ofRegistry r).operand j = (ofRegistry r).scalar j) (site : Site ν) :
    (ofRegistry r).compile j site = .endless := by
  have parsed : b.parse ⟨"literal", [quoted j], quoted⟩ site = .endless := by
    simp only [Builtin.compileScalars, List.mem_cons, List.not_mem_nil, or_false] at compiles
    rcases compiles with rfl | rfl | rfl <;> rfl
  rw [compile, scalar]
  funext ds
  simp only [Compiler.scalar, apply, ofRegistry, found]
  exact Compiling.bind_of_endless _ (congrFun parsed ds)

end Compiler

theorem Compiling.MayReport.toExcept {α : Type} {lenient : Prop} {path : List Nat} {R : α → Prop}
    {m : Compiling α} (reports : m.MayReport lenient path R) :
    (∃ a, R a ∧ m.toExcept = .ok a ∧ m.run [] = some (some a, [])) ∨
      (∃ ds, ds ≠ [] ∧ m.toExcept = .error ds ∧ m.run [] = some (none, ds)) ∨
      lenient ∧ m.toExcept = .error [] ∧ m.run [] = none := by
  rcases reports [] with (⟨a, related, done⟩ | ⟨new, nonempty, _, stopped⟩) | ⟨admitted, runs⟩
  · have run : m.run [] = some (some a, []) := done
    exact Or.inl ⟨a, related, by simp [Compiling.toExcept, run], run⟩
  · have run : m.run [] = some (none, new) := stopped
    exact Or.inr (Or.inl ⟨new, nonempty, by simp [Compiling.toExcept, run], run⟩)
  · have run : m.run [] = none := runs
    exact Or.inr (Or.inr ⟨admitted, by simp [Compiling.toExcept, run], run⟩)

theorem Compiling.MayReport.of_toExcept {α : Type} {lenient : Prop} {path : List Nat} {R : α → Prop}
    {m : Compiling α} (reports : m.MayReport lenient path R) {a : α} (done : m.toExcept = .ok a) :
    R a := by
  rcases reports.toExcept with ⟨a', holds, done', _⟩ | ⟨ds, _, stopped, _⟩ | ⟨_, runs, _⟩
  · cases done.symm.trans done'
    exact holds
  · cases done.symm.trans stopped
  · cases done.symm.trans runs

theorem literal_quotes : ∀ b ∈ Builtin.compileScalars,
    (Registry.standard : Registry ν).get? "literal" ≠ some b.parse := by
  intro b mem found
  have isLiteral : (Registry.standard : Registry ν).get? "literal" = some Builtin.literal.parse :=
    Registry.get?_standard rfl
  have same := congrFun (Option.some.inj (isLiteral.symm.trans found))
    ⟨"literal", [Compiler.quoted .null], Compiler.quoted⟩
  have results := congrFun (congrFun same default) []
  simp only [Builtin.compileScalars, List.mem_cons, List.not_mem_nil, or_false] at mem
  rcases mem with rfl | rfl | rfl <;> cases results

def searchInNothing : Json Float := .arr [.str "index-of", .arr [], .arr []]

/-- Both operands of the search report, each at its own place. -/
example : (((Compiler.ofRegistry .standard).compile searchInNothing (.root none)).run []).map
    (·.2.map (·.path)) = some [[1], [2]] := by
  decide

end MapStyle
