import MapStyle.Compile.Compiler
import MapStyle.Proofs.Members
import MapStyle.Proofs.Subtyping

/-!
# Compilations side by side

A parse function goes through its form in one way, whatever expressions the operands compile to: it
decides by documents, by names and by types.  So what holds of the compilations of the operands
carries over to the compilation of the form, and this is proved once, of families of compilations
that run side by side.

A `Judgement` is what is said of such families; it is closed under the ways in which compilations
are put together.  A `Congruence` says which families of expressions belong together; it is closed
under the nodes that the parse functions make, variables and what binds them aside.  A
`Correspondence` is closed under those too.  With one compilation in a family a correspondence is an
invariant of expressions, with two it is a simulation.
-/

set_option autoImplicit false

namespace MapStyle

namespace Compiling

variable {α β : Type}

theorem pure_run (a : α) (ds : List Diagnostic) :
    (pure a : Compiling α) ds = some (some a, ds) := rfl

theorem eq_of_pure {a b : α} {ds ds' : List Diagnostic}
    (done : (pure a : Compiling α) ds = some (some b, ds')) : a = b :=
  Option.some.inj (congrArg Prod.fst (Option.some.inj done))

theorem bind_pure (m : Compiling α) : m >>= pure = m := by
  funext ds
  show andThen m pure ds = m ds
  rw [andThen]
  rcases m ds with _ | ⟨_ | a, rest⟩ <;> rfl

theorem bind_eq_some {m : Compiling α} {next : α → Compiling β} {ds ds' : List Diagnostic} {b : β}
    (done : (m >>= next) ds = some (some b, ds')) :
    ∃ a rest, m ds = some (some a, rest) ∧ next a rest = some (some b, ds') := by
  have unfolded : m.andThen next ds = some (some b, ds') := done
  rw [andThen] at unfolded
  rcases run : m ds with _ | ⟨_ | a, rest⟩
  · simp [run] at unfolded
  · simp [run] at unfolded
  · exact ⟨a, rest, rfl, by simpa only [run] using unfolded⟩

theorem bind_of_some {m : Compiling α} (next : α → Compiling β) {ds ds' : List Diagnostic} {a : α}
    (done : m ds = some (some a, ds')) : (m >>= next) ds = next a ds' := by
  show m.andThen next ds = next a ds'
  simp only [andThen, done]

theorem bind_of_none {m : Compiling α} {next : α → Compiling β} {ds ds' : List Diagnostic}
    (stopped : m ds = some (none, ds')) : (m >>= next) ds = some (none, ds') := by
  show m.andThen next ds = some (none, ds')
  simp only [andThen, stopped]

theorem bind_of_endless {m : Compiling α} (next : α → Compiling β) {ds : List Diagnostic}
    (runs : m ds = none) : (m >>= next) ds = none := by
  show m.andThen next ds = none
  simp only [andThen, runs]

/-- The result of a compilation that returns with one. -/
def result? (m : Compiling α) (ds : List Diagnostic) : Option α := (m ds).bind (·.1)

theorem result?_eq_some {m : Compiling α} {ds : List Diagnostic} {a : α} :
    m.result? ds = some a ↔ ∃ ds', m ds = some (some a, ds') := by
  simp [result?, Option.bind_eq_some_iff]

theorem result?_bind_of_some {m : Compiling α} (next : α → Compiling β) {ds ds' : List Diagnostic}
    {a : α} (done : m ds = some (some a, ds')) :
    (m >>= next).result? ds = (next a).result? ds' :=
  congrArg (·.bind (·.1)) (bind_of_some next done)

theorem result?_bind_of_none {m : Compiling α} (next : α → Compiling β) {ds : List Diagnostic}
    (without : m.result? ds = none) : (m >>= next).result? ds = none := by
  rcases run : m ds with _ | ⟨_ | a, rest⟩
  · rw [result?, bind_of_endless next run, Option.bind_none]
  · rw [result?, bind_of_none run, Option.bind_some]
  · simp [result?, run] at without

theorem result?_both_of_some {m : Compiling α} (n : Compiling β) {ds ds' : List Diagnostic} {a : α}
    (done : m ds = some (some a, ds')) :
    (m.both n).result? ds = (n.result? ds').map fun b => (a, b) := by
  simp only [result?, both, done]
  rcases n ds' with _ | ⟨_ | b, rest⟩ <;> rfl

theorem result?_both_of_none {m : Compiling α} (n : Compiling β) {ds : List Diagnostic}
    (without : m.result? ds = none) : (m.both n).result? ds = none := by
  rcases run : m ds with _ | ⟨_ | a, rest⟩
  · simp [result?, both, run]
  · cases other : n rest <;> simp [result?, both, run, other]
  · simp [result?, run] at without

end Compiling

theorem lookup_map_at {ι α : Type} (ms : List (String × (ι → α))) (key : String) (i : ι) :
    (ms.map fun m => (m.1, m.2 i)).lookup key = (ms.lookup key).map (· i) :=
  lookup_map_value (fun a : ι → α => a i) ms key

/-- What is said of compilations side by side below a path, their results being related by `R`. -/
structure Judgement (ι : Type) where
  Holds : {α : Type} → List Nat → ((ι → α) → Prop) → (ι → Compiling α) → Prop
  yields : ∀ {α : Type} {path : List Nat} {R : (ι → α) → Prop} {a : ι → α}, R a →
    Holds path R fun i => pure (a i)
  andThen : ∀ {α β : Type} {path : List Nat} {R : (ι → α) → Prop} {S : (ι → β) → Prop}
    {m : ι → Compiling α} {next : ι → α → Compiling β}, Holds path R m →
    (∀ a, R a → Holds path S fun i => next i (a i)) → Holds path S fun i => m i >>= next i
  both : ∀ {α β : Type} {path : List Nat} {R : (ι → α) → Prop} {S : (ι → β) → Prop}
    {m : ι → Compiling α} {n : ι → Compiling β}, Holds path R m → Holds path S n →
    Holds path (fun ab => (R fun i => (ab i).1) ∧ S fun i => (ab i).2) fun i => (m i).both (n i)
  /-- whether compilations are admitted that never return -/
  Lenient : Prop
  endless : ∀ {α : Type} {path : List Nat} {R : (ι → α) → Prop}, Lenient →
    Holds path R fun _ => Compiling.endless
  fails : ∀ {α : Type} {path : List Nat} {R : (ι → α) → Prop} (below : List Nat) (fault : Fault),
    Holds path R fun _ ds => some (none, ds ++ [⟨path ++ below, fault⟩])
  above : ∀ {α : Type} {path : List Nat} {R : (ι → α) → Prop} {m : ι → Compiling α}
    (position : Nat), Holds (path ++ [position]) R m → Holds path R m

theorem Judgement.weaken {ι α : Type} (J : Judgement ι) {path : List Nat} {R S : (ι → α) → Prop}
    {m : ι → Compiling α} (holds : J.Holds path R m) (implies : ∀ a, R a → S a) :
    J.Holds path S m := by
  have piped : J.Holds path S fun i => m i >>= pure :=
    J.andThen holds fun a related => J.yields (implies a related)
  simpa only [Compiling.bind_pure] using piped

/-- Numbers that are read one after another as labels, none at or below the one before. -/
inductive LabelsRead {ν : Type} [Scalar ν] (Number : ν → Prop) : Option ν → List ν → Prop
  | nil {last : Option ν} : LabelsRead Number last []
  | cons {last : Option ν} {x : ν} {labels : List ν} : Number x → (∀ l ∈ last, ¬ x ≤ l) →
    LabelsRead Number (some x) labels → LabelsRead Number last (x :: labels)

/-- Which families of expressions of a type belong together, where names are neither used nor
bound; `Number` is what is known of the numbers that documents hold. -/
structure Congruence (ι ν : Type) [Scalar ν] where
  Together : Ty → (ι → Expr ν) → Prop
  Number : ν → Prop := fun _ => True
  ty_eq : ∀ {t : Ty} {e : ι → Expr ν}, Together t e → ∀ i, (e i).ty = t
  literal : ∀ {t : Ty} (j : Json ν), t.accepts (Value.ofJson j).ty = true →
    Together t fun _ => .literal (.ofJson j) t
  indexOf : ∀ {t u : Ty} {needle haystack : ι → Expr ν} (start : Option (ι → Expr ν)),
    Together t needle → Together u haystack → (∀ s ∈ start, ∃ w, Together w s) →
    Together .number fun i => .indexOf (needle i) (haystack i) (start.map (· i))
  get : ∀ {t : Ty} {key : ι → Expr ν} (object : Option (ι → Expr ν)), Together t key →
    (∀ o ∈ object, ∃ u, Together u o) → Together .value fun i => .get (key i) (object.map (· i))
  zoom : Together .number fun _ => .zoom
  access : ∀ a : Accessor, Together a.ty fun _ => .access a
  collator : ∀ {t u : Ty} {case diacritic : ι → Expr ν} (locale : Option (ι → Expr ν)),
    Together t case → Together u diacritic → (∀ l ∈ locale, ∃ w, Together w l) →
    Together .collator fun i => .collator (case i) (diacritic i) (locale.map (· i))
  resolvedLocale : ∀ {t : Ty} {c : ι → Expr ν}, Together t c →
    Together .string fun i => .resolvedLocale (c i)
  compare : ∀ {t u : Ty} {lhs rhs : ι → Expr ν} (c : Comparison) (through : Option (ι → Expr ν)),
    Together t lhs → Together u rhs → (∀ k ∈ through, ∃ w, Together w k) →
    Together .boolean fun i => .compare c (lhs i) (rhs i) (through.map (· i))
  assertion : ∀ (t : Ty) (args : List (ι → Expr ν)), (∀ a ∈ args, ∃ u, Together u a) →
    Together t fun i => .assertion t (args.map (· i))
  coercion : ∀ {u : Ty} {arg : ι → Expr ν} (t : Ty), Together u arg →
    Together t fun i => .coercion t (arg i)
  interpolate : ∀ {t u : Ty} {input : ι → Expr ν} {stops : List (ν × (ι → Expr ν))}
    (curve : Curve ν) (space : ColorSpace), t.isInterpolatable = true → Together u input →
    stops ≠ [] → LabelsRead Number none (stops.map (·.1)) →
    (∀ s ∈ stops, ∃ w, Together w s.2 ∧ t.accepts w = true) →
    Together t fun i => .interpolate t curve space (input i) (stops.map fun s => (s.1, s.2 i))

/-- Which families of expressions of a type belong together, whatever names are bound to. -/
structure Correspondence (ι ν : Type) [Scalar ν] extends Congruence ι ν where
  var : ∀ {t : Ty} {bound : ι → Expr ν} (name : String), Together t bound →
    Together t fun i => .var name (bound i)
  letIn : ∀ {t : Ty} {bindings : List (String × (ι → Expr ν))} {body : ι → Expr ν},
    (∀ b ∈ bindings, ∃ u, Together u b.2) → Together t body →
    Together t fun i => .letIn (bindings.map fun b => (b.1, b.2 i)) (body i)

instance (ι ν : Type) [Scalar ν] : CoeOut (Correspondence ι ν) (Congruence ι ν) :=
  ⟨Correspondence.toCongruence⟩

namespace Congruence

variable {ι ν : Type} [Scalar ν] (C : Congruence ι ν)

def Fits (expected : Option Ty) (e : ι → Expr ν) : Prop :=
  ∃ t, C.Together t e ∧ ∀ u, expected = some u → u.accepts t = true

/-- Scopes that bind the same names, each to expressions that belong together. -/
def Scopes (scope : ι → Scope ν) : Prop :=
  ∀ name, (∀ i, (scope i).get? name = none) ∨
    ∃ t e, C.Together t e ∧ ∀ i, (scope i).get? name = some (e i)

variable {C}

theorem fits_none {t : Ty} {e : ι → Expr ν} (together : C.Together t e) : C.Fits none e :=
  ⟨t, together, fun _ impossible => nomatch impossible⟩

theorem Scopes.empty : C.Scopes fun _ => .empty := fun _ => Or.inl fun _ => rfl

theorem Scopes.extend {scope : ι → Scope ν} {bindings : List (String × (ι → Expr ν))}
    (scopes : C.Scopes scope) (together : ∀ b ∈ bindings, ∃ t, C.Together t b.2) :
    C.Scopes fun i => (scope i).extend (bindings.map fun b => (b.1, b.2 i)) := by
  intro name
  have frame : ∀ i, (bindings.map fun b => (b.1, b.2 i)).reverse.lookup name =
      (bindings.reverse.lookup name).map (· i) := by
    intro i
    rw [← List.map_reverse, lookup_map_at]
  simp only [Scope.get?, Scope.extend, List.findSome?_cons, frame]
  cases found : bindings.reverse.lookup name with
  | none => exact scopes name
  | some e =>
    obtain ⟨t, ht⟩ := together _ (List.mem_reverse.mp (mem_of_lookup found))
    exact Or.inr ⟨t, e, ht, fun _ => rfl⟩

end Congruence

/-! ## One expression at a time -/

namespace Congruence

variable {ν : Type} {P : Expr ν → Prop}

theorem forall_mem_option {e : Option (Unit → Expr ν)}
    (holds : ∀ e' ∈ e, ∃ t : Ty, (e' ()).ty = t ∧ P (e' ())) :
    ∀ k ∈ (e.map (· ())).toList, P k := by
  intro k mem
  obtain ⟨e', found, rfl⟩ := Option.map_eq_some_iff.mp (Option.mem_toList.mp mem)
  obtain ⟨_, _, this⟩ := holds e' found
  exact this

/-- Expressions of a type with a property that a node has where its children have it, given that the
labels of an interpolation are read one after another. -/
def ofChildren [Scalar ν] (Number : ν → Prop) (P : Expr ν → Prop)
    (node : ∀ e : Expr ν, (∀ name bound, e ≠ .var name bound) →
      (∀ bindings body, e ≠ .letIn bindings body) →
      (∀ t curve space input stops, e = .interpolate t curve space input stops →
        stops ≠ [] ∧ LabelsRead Number none (stops.map (·.1))) →
      (∀ k ∈ e.children, P k) → P e) : Congruence Unit ν where
  Together t e := (e ()).ty = t ∧ P (e ())
  Number := Number
  ty_eq together _ := together.1
  literal _ _ := ⟨rfl, node _ nofun nofun nofun nofun⟩
  indexOf start needle haystack starts := by
    refine ⟨rfl, node _ nofun nofun nofun ?_⟩
    refine List.forall_mem_cons.mpr ⟨needle.2, List.forall_mem_cons.mpr ⟨haystack.2, ?_⟩⟩
    exact forall_mem_option starts
  get object key objects := by
    refine ⟨rfl, node _ nofun nofun nofun ?_⟩
    exact List.forall_mem_cons.mpr ⟨key.2, forall_mem_option objects⟩
  zoom := ⟨rfl, node _ nofun nofun nofun nofun⟩
  access _ := ⟨rfl, node _ nofun nofun nofun nofun⟩
  collator locale case diacritic locales := by
    refine ⟨rfl, node _ nofun nofun nofun ?_⟩
    refine List.forall_mem_cons.mpr ⟨case.2, List.forall_mem_cons.mpr ⟨diacritic.2, ?_⟩⟩
    exact forall_mem_option locales
  resolvedLocale collator := by
    refine ⟨rfl, node _ nofun nofun nofun ?_⟩
    exact List.forall_mem_singleton.mpr collator.2
  compare _ through lhs rhs throughs := by
    refine ⟨rfl, node _ nofun nofun nofun ?_⟩
    refine List.forall_mem_cons.mpr ⟨lhs.2, List.forall_mem_cons.mpr ⟨rhs.2, ?_⟩⟩
    exact forall_mem_option throughs
  assertion _ args each := by
    refine ⟨rfl, node _ nofun nofun nofun ?_⟩
    intro k mem
    obtain ⟨a, aMem, rfl⟩ := List.mem_map.mp mem
    obtain ⟨_, _, this⟩ := each a aMem
    exact this
  coercion _ arg := by
    refine ⟨rfl, node _ nofun nofun nofun ?_⟩
    exact List.forall_mem_singleton.mpr arg.2
  interpolate {_ _ _ stops} _ _ _ input nonempty labels outputs := by
    refine ⟨rfl, node _ nofun nofun ?_ ?_⟩
    · intro t curve space input' stops' same
      cases same
      refine ⟨by simpa using nonempty, ?_⟩
      rw [List.map_map]
      exact labels
    · refine List.forall_mem_cons.mpr ⟨input.2, ?_⟩
      intro k mem
      obtain ⟨s, sMem, rfl⟩ := List.mem_map.mp mem
      obtain ⟨s', mem', rfl⟩ := List.mem_map.mp sMem
      obtain ⟨_, ⟨_, this⟩, _⟩ := outputs s' mem'
      exact this

end Congruence

/-! ## Operands and forms side by side -/

variable {ι ν : Type} [Scalar ν]

/-- Operands of one document whose compilations fit together in all scopes in force. -/
structure Readable (J : Judgement ι) (C : Congruence ι ν) (inForce : (ι → Scope ν) → Prop)
    (o : ι → Operand ν) : Prop where
  json : ∃ j, (∀ i, (o i).json = j) ∧ ∀ x, j.asNumber? = some x → C.Number x
  compile : ∀ (path : List Nat) (scope : ι → Scope ν) (expected : Option Ty), inForce scope →
    J.Holds path (C.Fits expected) fun i => (o i).compile ⟨path, scope i, expected⟩

structure Ready (J : Judgement ι) (C : Congruence ι ν) (inForce : (ι → Scope ν) → Prop)
    (o : ι → Operand ν) : Prop extends Readable J C inForce o where
  members : ∃ ms : List (String × (ι → Operand ν)),
    (∀ i, (o i).members = ms.map fun m => (m.1, m.2 i)) ∧ ∀ m ∈ ms, Readable J C inForce m.2

/-- Forms of one operator with the same number of arguments. -/
structure Forms (ι ν : Type) where
  name : String
  args : List (ι → Operand ν)
  constant : ι → Json ν → Operand ν

def Forms.at (f : Forms ι ν) (i : ι) : Form ν := ⟨f.name, f.args.map (· i), f.constant i⟩

structure Forms.Ready (J : Judgement ι) (C : Congruence ι ν) (inForce : (ι → Scope ν) → Prop)
    (f : Forms ι ν) : Prop where
  args : ∀ o ∈ f.args, MapStyle.Ready J C inForce o
  constant : ∀ b, Readable J C inForce fun i => f.constant i (.bool b)

theorem Readable.compileAt {J : Judgement ι} {C : Congruence ι ν}
    {inForce : (ι → Scope ν) → Prop} {o : ι → Operand ν} (readable : Readable J C inForce o)
    {scope : ι → Scope ν} (scopes : inForce scope) (path : List Nat)
    (around expected : Option Ty) (position : Nat) :
    J.Holds path (C.Fits expected) fun i =>
      (o i).compileAt ⟨path, scope i, around⟩ position expected :=
  J.above position (readable.compile (path ++ [position]) scope expected scopes)

end MapStyle
