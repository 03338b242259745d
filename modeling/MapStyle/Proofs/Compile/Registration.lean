import MapStyle.Collation.Engine
import MapStyle.Compile.Operators.Probe
import MapStyle.Proofs.Compile.Mentions

/-!
# Operators that a document applies

Compiling a document looks up the names that head its arrays, and `literal` for the scalars in it
and for the options that are left out.  So registries that agree on these names compile the document
alike, and an operator that is added or replaced matters only to documents that apply it.
-/

set_option autoImplicit false

namespace MapStyle

variable {ν : Type}

namespace Json

/-- An array that starts with a name stands in a document. -/
def Applies (j : Json ν) (name : String) : Prop := ∃ args, Part (.arr (.str name :: args)) j

variable {name : String}

@[simp] theorem applies_arr {items : List (Json ν)} : (Json.arr items).Applies name ↔
    items.head? = some (.str name) ∨ ∃ j ∈ items, j.Applies name := by
  constructor
  · rintro ⟨args, part⟩
    cases part with
    | whole => exact Or.inl rfl
    | item mem part => exact Or.inr ⟨_, mem, args, part⟩
  · rintro (head | ⟨j, mem, args, part⟩)
    · obtain ⟨args, rfl⟩ := List.head?_eq_some_iff.mp head
      exact ⟨args, .whole _⟩
    · exact ⟨args, .item mem part⟩

@[simp] theorem applies_obj {members : List (String × Json ν)} :
    (Json.obj members).Applies name ↔ ∃ m ∈ members, m.2.Applies name := by
  constructor
  · rintro ⟨args, part⟩
    cases part with
    | member mem part => exact ⟨_, mem, args, part⟩
  · rintro ⟨m, mem, args, part⟩
    exact ⟨args, .member mem part⟩

@[simp] theorem not_applies_str (s : String) : ¬ (Json.str s : Json ν).Applies name := by
  rintro ⟨_, ⟨⟩⟩

end Json

theorem Registry.get?_register_of_ne (r : Registry ν) {name other : String} (parse : ParseFn ν)
    (differs : other ≠ name) : (r.register name parse).get? other = r.get? other := by
  rw [get?, register, lookup_insertMember, if_neg differs]
  rfl

namespace Compiler

/-- Compilers that finish alike and have one parse function for `literal`, if any. -/
structure ScalarsAlike (c c' : Compiler ν) : Prop where
  finish : c.finish = c'.finish
  literal : c.registry.get? "literal" = c'.registry.get? "literal"

variable {c c' : Compiler ν}

/-- The compilers give one parse function to every name that a document applies, or none. -/
def ReadAlike (c c' : Compiler ν) (j : Json ν) : Prop :=
  ∀ name, j.Applies name → c.registry.get? name = c'.registry.get? name

/-! ## One form -/

theorem settle_congr (finish : c.finish = c'.finish) : c.settle = c'.settle := by
  funext site e
  simp only [settle, finish]

theorem apply_congr (finish : c.finish = c'.finish) {f : Form ν}
    (found : c.registry.get? f.name = c'.registry.get? f.name) : c.apply f = c'.apply f := by
  funext site
  simp only [apply, found, settle_congr finish]

theorem scalar_congr (alike : ScalarsAlike c c') : c.scalar = c'.scalar := by
  funext j
  simp only [scalar, apply_congr (f := ⟨"literal", [quoted j], quoted⟩) alike.finish alike.literal]

/-- Arrays compile alike if their items do and there is one parse function for the name that heads
them. -/
theorem form_congr (alike : ScalarsAlike c c') {items : List (Json ν)}
    (agree : ReadAlike c c' (.arr items)) (same : c.operands items = c'.operands items) :
    c.form (c.operands items) = c'.form (c'.operands items) := by
  rw [← same]
  funext site
  cases items with
  | nil => rfl
  | cons head args =>
    rw [operands, form, form, operand_json]
    cases head with
    | str name =>
      have found : c.registry.get? name = c'.registry.get? name :=
        agree name (Json.applies_arr.mpr (Or.inl rfl))
      simp only [scalar_congr alike]
      rw [apply_congr (f := ⟨name, _, _⟩) alike.finish found]
    | _ => rfl

/-! ## Whole documents -/

mutual

theorem operand_congr (alike : ScalarsAlike c c') : (j : Json ν) → ReadAlike c c' j →
    c.operand j = c'.operand j
  | .arr items, agree => by
    have same := operands_congr alike items fun j mem name applies =>
      agree name (Json.applies_arr.mpr (Or.inr ⟨j, mem, applies⟩))
    rw [operand, operand, form_congr alike agree same]
  | .obj members, agree => by
    have same := memberOperands_congr alike members fun m mem name applies =>
      agree name (Json.applies_obj.mpr ⟨m, mem, applies⟩)
    rw [operand, operand, same]
  | .null, _ | .bool _, _ | .int _, _ | .float _, _ | .str _, _ => congrFun (scalar_congr alike) _
termination_by structural j => j

theorem operands_congr (alike : ScalarsAlike c c') : (js : List (Json ν)) →
    (∀ j ∈ js, ReadAlike c c' j) → c.operands js = c'.operands js
  | [], _ => rfl
  | j :: rest, agree => by
    rw [operands, operands, operand_congr alike j (agree j (List.mem_cons_self ..)),
      operands_congr alike rest fun k mem => agree k (List.mem_cons_of_mem _ mem)]
termination_by structural js => js

theorem memberOperands_congr (alike : ScalarsAlike c c') : (ms : List (String × Json ν)) →
    (∀ m ∈ ms, ReadAlike c c' m.2) → c.memberOperands ms = c'.memberOperands ms
  | [], _ => rfl
  | (k, j) :: rest, agree => by
    rw [memberOperands, memberOperands,
      operand_congr alike j (agree (k, j) (List.mem_cons_self ..)),
      memberOperands_congr alike rest fun m mem => agree m (List.mem_cons_of_mem _ mem)]
termination_by structural ms => ms

end

variable [Platform ν]

/-- Registering a name other than `literal` changes nothing for the documents that do not apply it:
they compile to the same trees with the same diagnostics, at every site and on their own. -/
theorem compile_register {j : Json ν} {name : String} (notLiteral : name ≠ "literal")
    (unapplied : ¬ j.Applies name) (r : Registry ν) (parse : ParseFn ν) :
    (ofRegistry (r.register name parse)).compile j = (ofRegistry r).compile j ∧
      ∀ expected, compileExpr (r.register name parse) j expected = compileExpr r j expected := by
  have alike : ScalarsAlike (ofRegistry (r.register name parse)) (ofRegistry r) :=
    ⟨rfl, r.get?_register_of_ne parse notLiteral.symm⟩
  have agree : ReadAlike (ofRegistry (r.register name parse)) (ofRegistry r) j :=
    fun other applies => r.get?_register_of_ne parse fun same => by
      subst same
      exact unapplied applies
  have compiles : (ofRegistry (r.register name parse)).compile j = (ofRegistry r).compile j :=
    congrArg Operand.compile (operand_congr alike j agree)
  refine ⟨compiles, fun expected => ?_⟩
  rw [compileExpr, compileExpr, compiles]

def namesByLocale : Json Float :=
  .arr [.str "<", .arr [.str "get", .str "name"], .str "m",
    .arr [.str "collator", .obj [("locale", .arr [.str "get", .str "lang"])]]]

/-- Another parse function for `zoom` matters to a form of it, and not to the names. -/
theorem compile_register_of_names :
    (∀ expected, compileExpr (Registry.standard.register "zoom" Operator.probe) namesByLocale
      expected = compileExpr .standard namesByLocale expected) ∧
    (compileExpr .standard namesByLocale none).isOk = true ∧
    ∃ e, compileExpr .standard (.arr [.str "zoom"] : Json Float) none = .ok e ∧
      ∀ e', compileExpr (Registry.standard.register "zoom" Operator.probe) (.arr [.str "zoom"])
        none ≠ .ok (e' : Expr Float) := by
  have unapplied : ¬ namesByLocale.Applies "zoom" := by simp [namesByLocale]
  refine ⟨(compile_register (by decide) unapplied .standard Operator.probe).2, ?_, _, rfl, ?_⟩
  · rfl
  · intro e' compiled
    cases compiled

end Compiler

end MapStyle
