import MapStyle.Proofs.Compile.Reporting
import MapStyle.Proofs.Typing

/-!
# Compiled expressions yield values of their types

Compiling makes well-typed expressions.  The value that stands for a folded expression conforms to
its type without exception: an expression that reads nothing yields the same value at a feature that
has a geometry.
-/

set_option autoImplicit false

namespace MapStyle

variable {ν : Type} [Platform ν]

def Env.located : Env ν := ⟨.blank, some ⟨none, some .point, []⟩⟩

namespace Expr

theorem WellTyped.conforms_of_isConstant {e : Expr ν} (typed : e.WellTyped)
    (constant : e.isConstant = true) {env : Env ν} {v : Value ν} (done : e.eval env = .ok v) :
    v.Conforms e.ty := by
  rw [eval_eq_of_isConstant constant env .located] at done
  rcases typed.eval_conforms done with conforms | ⟨_, _, unlocated⟩
  · exact conforms
  · cases unlocated

theorem WellTyped.folded {e : Expr ν} (typed : e.WellTyped) : e.folded.WellTyped := by
  unfold Expr.folded
  split
  · rename_i foldable
    have constant := isConstant_of_isFoldable foldable
    split
    · rename_i v done
      exact .literal (typed.conforms_of_isConstant constant done)
    · exact typed
  · exact typed

end Expr

def Correspondence.typing (ν : Type) [Platform ν] : Correspondence Unit ν where
  Together t e := (e ()).ty = t ∧ (e ()).WellTyped
  ty_eq together _ := together.1
  literal j accepted := ⟨rfl, .literal (Value.conforms_ofJson j accepted)⟩
  var name bound := ⟨bound.1, .var name bound.2⟩
  letIn bindings body := by
    refine ⟨body.1, .letIn (fun b mem => ?_) body.2⟩
    obtain ⟨b', mem', rfl⟩ := List.mem_map.mp mem
    exact (bindings b' mem').elim fun _ h => h.2
  indexOf start needle haystack starts := by
    refine ⟨rfl, .indexOf needle.2 haystack.2 fun s mem => ?_⟩
    obtain ⟨s', mem', rfl⟩ := Option.map_eq_some_iff.mp mem
    exact (starts s' mem').elim fun _ h => h.2
  get object key objects := by
    refine ⟨rfl, .get key.2 fun o mem => ?_⟩
    obtain ⟨o', mem', rfl⟩ := Option.map_eq_some_iff.mp mem
    exact (objects o' mem').elim fun _ h => h.2
  zoom := ⟨rfl, .zoom⟩
  access a := ⟨rfl, .access a⟩
  collator locale case diacritic locales := by
    refine ⟨rfl, .collator case.2 diacritic.2 fun l mem => ?_⟩
    obtain ⟨l', mem', rfl⟩ := Option.map_eq_some_iff.mp mem
    exact (locales l' mem').elim fun _ h => h.2
  resolvedLocale c := ⟨rfl, .resolvedLocale c.2⟩
  compare c through lhs rhs throughs := by
    refine ⟨rfl, .compare c lhs.2 rhs.2 fun k mem => ?_⟩
    obtain ⟨k', mem', rfl⟩ := Option.map_eq_some_iff.mp mem
    exact (throughs k' mem').elim fun _ h => h.2
  assertion t args typed := by
    refine ⟨rfl, .assertion t fun a mem => ?_⟩
    obtain ⟨a', mem', rfl⟩ := List.mem_map.mp mem
    exact (typed a' mem').elim fun _ h => h.2
  coercion t arg := ⟨rfl, .coercion t arg.2⟩
  interpolate curve space blends input nonempty _ outputs := by
    refine ⟨rfl, .interpolate curve space blends input.2 (by simpa using nonempty) ?_ ?_⟩
    · intro s mem
      obtain ⟨s', mem', rfl⟩ := List.mem_map.mp mem
      exact (outputs s' mem').elim fun _ h => h.1.2
    · intro s mem
      obtain ⟨s', mem', rfl⟩ := List.mem_map.mp mem
      obtain ⟨u, typed, accepted⟩ := outputs s' mem'
      exact typed.1 ▸ accepted

theorem Compiler.compile_wellTyped {r : Registry ν} (standard : r.IsStandard) (j : Json ν)
    {site : Site ν} (scope : (Correspondence.typing ν).Scopes fun _ => site.scope) :
    ((ofRegistry r).compile j site).MayReport (¬ r.QuotesScalars) site.path fun e =>
      e.WellTyped ∧ ∀ t, site.expected = some t → t.accepts e.ty = true := by
  have inStep : InStep (Judgement.reporting (¬ r.QuotesScalars)) (Correspondence.typing ν) r
      fun _ => ofRegistry r :=
    inStep_reporting standard fun together =>
      ⟨(Expr.folded_alike _).ty.trans together.1, together.2.folded⟩
  have fits : ((ofRegistry r).compile j site).MayReport (¬ r.QuotesScalars) site.path fun e =>
      (Correspondence.typing ν).Fits site.expected fun _ => e :=
    compile_holds inStep (fun _ => trivial) j scope site.path site.expected
  refine fits.weaken ?_
  rintro e ⟨t, ⟨type, typed⟩, accepted⟩
  exact ⟨typed, fun u expected => type ▸ accepted u expected⟩

theorem compileExpr_wellTyped {r : Registry ν} (standard : r.IsStandard) {j : Json ν}
    {expected : Option Ty} {e : Expr ν} (compiled : compileExpr r j expected = .ok e) :
    e.WellTyped ∧ ∀ t, expected = some t → t.accepts e.ty = true := by
  have scope : (Correspondence.typing ν).Scopes fun _ => (Site.root (ν := ν) expected).scope :=
    .empty
  exact (Compiler.compile_wellTyped standard j scope).of_toExcept compiled

/-- A compiled expression may stand where it is expected, and in every context its value, if it has
one, conforms to its type; the exception is the kind of geometry where there is none. -/
theorem compileExpr_typeSound {j : Json ν} {expected : Option Ty} {e : Expr ν}
    (compiled : compileExpr .standard j expected = .ok e) :
    (∀ t, expected = some t → t.accepts e.ty = true) ∧
      ∀ (env : Env ν) (v : Value ν), e.eval env = .ok v → e.ty.accepts v.ty = true ∨
        (e.ty = .string ∧ v = .null ∧ env.feature.bind (·.geometry) = none) := by
  obtain ⟨typed, accepted⟩ := compileExpr_wellTyped Registry.isStandard_standard compiled
  refine ⟨accepted, fun env v yielded => ?_⟩
  rcases typed.eval_conforms yielded with conforms | unlocated
  · exact Or.inl conforms.accepts
  · exact Or.inr unlocated

def numericProperty : Expr Float :=
  .assertion .number [.get (.literal (.string "height") .string) none]

def Env.measured : Env Float := ⟨.blank, some ⟨none, some .point, [("height", .float 3)]⟩⟩

theorem compileExpr_typeSound_of_property :
    compileExpr .standard (.arr [.str "get", .str "height"]) (some .number) = .ok numericProperty ∧
      Ty.number.accepts numericProperty.ty = true ∧
      numericProperty.eval .measured = .ok (.number 3) ∧
      (Ty.number.accepts (Value.number (3 : Float)).ty = true ∨
        (numericProperty.ty = .string ∧ (Value.number (3 : Float)) = .null ∧
          Env.measured.feature.bind (·.geometry) = none)) := by
  have compiled : compileExpr .standard (.arr [.str "get", .str "height"]) (some .number) =
      .ok numericProperty := by rfl
  have yielded : numericProperty.eval .measured = .ok (.number 3) := by rfl
  obtain ⟨fits, conforms⟩ := compileExpr_typeSound compiled
  exact ⟨compiled, fits .number rfl, yielded, conforms .measured (.number 3) yielded⟩

/-! ## Types that stand for others -/

/-- What is made of an expression for an expected type yields values of that type, if the
expression yields values of its own. -/
theorem accepts_of_annotate {site : Site ν} {t : Ty} {e annotated : Expr ν}
    {ds ds' : List Diagnostic} (done : annotate site t e ds = some (some annotated, ds'))
    {env : Env ν} (own : ∀ w : Value ν, e.eval env = .ok w → e.ty.accepts w.ty = true) {v : Value ν}
    (yielded : annotated.eval env = .ok v) : t.accepts v.ty = true := by
  unfold annotate at done
  split at done
  · obtain rfl : .assertion t [e] = annotated := Compiling.eq_of_pure done
    rw [Expr.eval] at yielded
    exact (Expr.evalAssertion_eq_ok yielded).1
  split at done
  · obtain rfl : .coercion t e = annotated := Compiling.eq_of_pure done
    rw [Expr.eval] at yielded
    split at yielded
    · cases yielded
    · exact (Value.coerce_conforms yielded).accepts
  split at done
  · rename_i stands
    obtain rfl : e = annotated := Compiling.eq_of_pure done
    exact Value.conforms_of_accepts stands (own v yielded)
  · cases done

/-- Every type stands for itself, and for the values of each type that it stands for; what is made
of an assertion where another type is expected yields values of the expected type.  Types alone do
not compose like that: `array<string>` stands for `array<value, 0>`, which stands for
`array<number, 0>`. -/
theorem accepts_sound :
    (∀ t : Ty, t.accepts t = true) ∧
      (∀ (t u : Ty) (v : Value ν), t.accepts u = true → u.accepts v.ty = true →
        t.accepts v.ty = true) ∧
      ∀ (t u : Ty) (args : List (Expr ν)) (site : Site ν) (annotated : Expr ν)
        (ds ds' : List Diagnostic),
        annotate site t (.assertion u args) ds = some (some annotated, ds') →
          ∀ (env : Env ν) (v : Value ν), annotated.eval env = .ok v → t.accepts v.ty = true := by
  refine ⟨Ty.accepts_self, fun t u v upper lower => Value.conforms_of_accepts upper lower, ?_⟩
  intro t u args site annotated ds ds' done env v yielded
  refine accepts_of_annotate done (fun w asserted => ?_) yielded
  rw [Expr.eval] at asserted
  exact (Expr.evalAssertion_eq_ok asserted).1

def twoNumberLists : Expr Float :=
  .assertion (.array (.array .number none) (some 2)) [.get (.literal (.string "rows") .string) none]

def Env.emptyRows : Env Float :=
  ⟨.blank, some ⟨none, some .point, [("rows", .arr [.arr [], .arr []])]⟩⟩

theorem accepts_sound_of_emptyRows :
    (Ty.array .value none).accepts (.array (.array .number none) (some 2)) = true ∧
      (Ty.array (.array .number none) (some 2)).accepts
        (Value.array [.array [], .array []] : Value Float).ty = true ∧
      (Ty.array .value none).accepts
        (Value.array [.array [], .array []] : Value Float).ty = true ∧
      annotate (Site.root none) (.array .value none) twoNumberLists [] =
        some (some twoNumberLists, []) ∧
      twoNumberLists.eval .emptyRows = .ok (.array [.array [], .array []]) ∧
      ∀ (env : Env Float) (v : Value Float), twoNumberLists.eval env = .ok v →
        (Ty.array .value none).accepts v.ty = true := by
  obtain ⟨-, values, assertions⟩ := accepts_sound (ν := Float)
  have stands : (Ty.array .value none).accepts (.array (.array .number none) (some 2)) = true := by
    decide
  have conforms : (Ty.array (.array .number none) (some 2)).accepts
      (Value.array [.array [], .array []] : Value Float).ty = true := by decide
  have bare : annotate (Site.root none) (.array .value none) twoNumberLists [] =
      some (some twoNumberLists, []) := by rfl
  have yielded : twoNumberLists.eval .emptyRows = .ok (.array [.array [], .array []]) := by rfl
  exact ⟨stands, conforms, values _ _ _ stands conforms, bare, yielded,
    assertions _ _ _ _ _ _ _ bare⟩

end MapStyle
