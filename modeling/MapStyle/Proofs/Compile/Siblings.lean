import Mathlib.Data.List.Basic
import MapStyle.Proofs.Compile.Reporting

/-!
# Arguments that fail beside each other

An operator with several arguments goes through them in order and stops at the first in which it
finds a fault: what it reports then stands below the place of that argument alone, and the faults of
the later ones stay unknown.  The search of a needle in a haystack is the exception: it compiles
both of them in any case.
-/

set_option autoImplicit false

namespace MapStyle

namespace Compiling

variable {α β : Type}

/-- A compilation either has a result with a property and adds nothing, or has none and adds
diagnostics below the place of one of some arguments. -/
def ReportsAmong (path : List Nat) (among : Nat → Prop) (R : α → Prop) (m : Compiling α) : Prop :=
  ∀ ds, (∃ a, R a ∧ m ds = some (some a, ds)) ∨
    ∃ k new, among k ∧ new ≠ [] ∧ (∀ d ∈ new, path ++ [k] <+: d.path) ∧
      m ds = some (none, ds ++ new)

/-- A compilation has no result and adds diagnostics below the place of one of some arguments. -/
def StopsAmong (path : List Nat) (among : Nat → Prop) (m : Compiling α) : Prop :=
  ReportsAmong path among (fun _ => False) m

namespace ReportsAmong

variable {path : List Nat} {among : Nat → Prop} {R : α → Prop} {S : β → Prop} {m : Compiling α}

theorem yields {a : α} (holds : R a) : ReportsAmong path among R (pure a) :=
  fun _ => Or.inl ⟨a, holds, rfl⟩

theorem andThen {next : α → Compiling β} (reports : ReportsAmong path among R m)
    (later : ∀ a, R a → ReportsAmong path among S (next a)) :
    ReportsAmong path among S (m >>= next) := by
  intro ds
  rcases reports ds with ⟨a, related, done⟩ | ⟨k, new, mem, nonempty, below, stopped⟩
  · rw [bind_of_some next done]
    exact later a related ds
  · exact Or.inr ⟨k, new, mem, nonempty, below, bind_of_none stopped⟩

theorem stops {next : α → Compiling β} (stopped : StopsAmong path among m) :
    ReportsAmong path among S (m >>= next) :=
  andThen stopped fun _ impossible => impossible.elim

theorem ofArgument {k : Nat} (reports : Reports (path ++ [k]) R m) (mem : among k) :
    ReportsAmong path among R m := by
  intro ds
  rcases reports ds with done | ⟨new, nonempty, below, stopped⟩
  · exact Or.inl done
  · exact Or.inr ⟨k, new, mem, nonempty, below, stopped⟩

theorem failAt {ν : Type} {site : Site ν} {k : Nat} (below : List Nat) (fault : Fault)
    (mem : among k) :
    (site.failAt (k :: below) fault : Compiling α).ReportsAmong site.path among R := by
  intro ds
  refine Or.inr ⟨k, [⟨site.path ++ k :: below, fault⟩], mem, by simp, ?_, rfl⟩
  intro d mem
  obtain rfl := List.mem_singleton.mp mem
  exact ⟨below, by simp⟩

end ReportsAmong

/-- A compilation has no result, whatever was found before. -/
def Never (m : Compiling α) : Prop := ∀ ds a after, m ds ≠ some (some a, after)

theorem Reports.never {path : List Nat} {R : α → Prop} {m : Compiling α}
    (reports : Reports path R m) (never : m.Never) : Reports path (fun _ => False) m := by
  intro ds
  rcases reports ds with ⟨a, _, done⟩ | stopped
  · exact absurd done (never ds a ds)
  · exact Or.inr stopped

/-- Going through both of two compilations of which one never has a result: either adds what it
adds on its own, and adds something if it never has a result. -/
theorem Reports.both_stops {path : List Nat} {R : α → Prop} {S : β → Prop} {m : Compiling α}
    {n : Compiling β} {k l : Nat} (first : Reports (path ++ [k]) R m)
    (second : Reports (path ++ [l]) S n) (never : m.Never ∨ n.Never) (ds : List Diagnostic) :
    ∃ new more, m.both n ds = some (none, ds ++ (new ++ more)) ∧
      (∀ d ∈ new, path ++ [k] <+: d.path) ∧ (∀ d ∈ more, path ++ [l] <+: d.path) ∧
      (m.Never → new ≠ []) ∧ (n.Never → more ≠ []) := by
  rcases first ds with ⟨a, _, doneA⟩ | ⟨new, nonempty, below, stopped⟩
  · have some : ¬ m.Never := fun never => never ds a ds doneA
    rcases second ds with ⟨b, _, doneB⟩ | ⟨more, nonemptyB, belowB, stoppedB⟩
    · have someB : ¬ n.Never := fun never => never ds b ds doneB
      exact absurd never (not_or.mpr ⟨some, someB⟩)
    · exact ⟨[], more, by simp [Compiling.both, doneA, stoppedB], by simp, belowB,
        fun never => absurd never some, fun _ => nonemptyB⟩
  · rcases second (ds ++ new) with ⟨b, _, doneB⟩ | ⟨more, nonemptyB, belowB, stoppedB⟩
    · have someB : ¬ n.Never := fun never => never (ds ++ new) b (ds ++ new) doneB
      exact ⟨new, [], by simp [Compiling.both, stopped, doneB], below, by simp, fun _ => nonempty,
        fun never => absurd never someB⟩
    · exact ⟨new, more, by simp [Compiling.both, stopped, stoppedB], below, belowB,
        fun _ => nonempty, fun _ => nonemptyB⟩

theorem not_below_other {path place : List Nat} {k l : Nat} (below : path ++ [k] <+: place)
    (other : k ≠ l) : ¬ path ++ [l] <+: place := by
  intro belowOther
  have same : path ++ [k] = path ++ [l] :=
    (List.prefix_of_prefix_length_le below belowOther (by simp)).eq_of_length (by simp)
  exact other (by simpa using same)

end Compiling

namespace Operand

variable {ν : Type}

/-- An operand that, at every site, has a result or reports there why it has none. -/
def Reporting (o : Operand ν) : Prop :=
  ∀ site : Site ν, (o.compile site).Reports site.path fun _ => True

/-- An operand that has no result at any site and reports there why. -/
def Stuck (o : Operand ν) : Prop :=
  ∀ site : Site ν, (o.compile site).Reports site.path fun _ => False

variable {o : Operand ν} {among : Nat → Prop} {position : Nat}

theorem Reporting.compileAt (reporting : o.Reporting) (site : Site ν) (expected : Option Ty)
    (mem : among position) :
    (o.compileAt site position expected).ReportsAmong site.path among fun _ => True :=
  .ofArgument (reporting (site.child position expected)) mem

theorem Stuck.compileAt (stuck : o.Stuck) (site : Site ν) (expected : Option Ty)
    (mem : among position) : (o.compileAt site position expected).StopsAmong site.path among :=
  .ofArgument (stuck (site.child position expected)) mem

end Operand

theorem Compiler.operand_reporting {ν : Type} [Platform ν] (j : Json ν) :
    ((ofRegistry .standard).operand j).Reporting := by
  intro site
  have reports := (compile_reports Registry.isStandard_standard j site).weaken fun _ _ => trivial
  exact reports.reports fun strict => strict Registry.quotesScalars_standard

namespace Operator

open Compiling

variable {ν : Type} {site : Site ν} {among : Nat → Prop}

theorem compileAll_stops (expected : Option Ty) : (args : List (Operand ν)) →
    (∀ o ∈ args, o.Reporting) → (position n : Nat) → {stuck : Operand ν} → args[n]? = some stuck →
    stuck.Stuck → (∀ m ≤ n, among (position + m)) →
    (Operand.compileAll site expected position args).StopsAmong site.path among
  | o :: rest, _, position, 0, _, found, stuck, mem => by
    obtain rfl := Option.some.inj found
    exact .stops (stuck.compileAt site expected (mem 0 (Nat.le_refl 0)))
  | o :: rest, reporting, position, n + 1, _, found, stuck, mem => by
    refine .andThen ((reporting o (by simp)).compileAt site expected (mem 0 (Nat.zero_le _))) ?_
    intro e _
    refine .stops (compileAll_stops expected rest (fun o mem => reporting o (by simp [mem]))
      (position + 1) n (by simpa using found) stuck ?_)
    intro m le
    rw [Nat.add_assoc, Nat.add_comm 1 m]
    exact mem (m + 1) (Nat.succ_le_succ le)

theorem assertion_stops {t : Ty} {position n : Nat} {args : List (Operand ν)} {o : Operand ν}
    (reporting : ∀ o ∈ args, o.Reporting) (found : args[n]? = some o) (stuck : o.Stuck)
    (mem : ∀ m ≤ n, among (position + m)) :
    (assertion site t position args).StopsAmong site.path among :=
  .stops (compileAll_stops (some .value) args reporting position n found stuck mem)

theorem assert_stops {name : String} {args : List (Operand ν)} {constant : Json ν → Operand ν}
    {t : Ty} {n : Nat} {o : Operand ν} (asserted : assertedType? name = some t)
    (reporting : ∀ o ∈ args, o.Reporting) (found : args[n]? = some o) (stuck : o.Stuck)
    (mem : ∀ m ≤ n, among (m + 1)) :
    (assert ⟨name, args, constant⟩ site).StopsAmong site.path among := by
  have some : args.isEmpty = false := by
    cases args with
    | nil => cases found
    | cons => rfl
  simp only [assert, some, asserted]
  refine assertion_stops reporting found stuck ?_
  intro m le
  rw [Nat.add_comm]
  exact mem m le

theorem assertArray_stops {item length : Operand ν} {args : List (Operand ν)}
    {constant : Json ν → Operand ν} {t : Ty} {size : Option Nat} {n : Nat} {o : Operand ν}
    (typed : itemType? item.json = some t) (sized : length? length.json = some size)
    (reporting : ∀ o ∈ args, o.Reporting) (found : args[n]? = some o) (stuck : o.Stuck)
    (mem : ∀ m ≤ n, among (m + 3)) :
    (assert ⟨"array", item :: length :: args, constant⟩ site).StopsAmong site.path among := by
  cases args with
  | nil => cases found
  | cons arg rest =>
    have byName : assertedType? "array" = none := rfl
    simp only [assert, List.isEmpty_cons, byName, assertArray, typed, sized]
    refine assertion_stops reporting found stuck ?_
    intro m le
    rw [Nat.add_comm]
    exact mem m le

theorem get_stops {name : String} {key object : Operand ν} {constant : Json ν → Operand ν}
    (stuck : key.Stuck) (mem : among 1) :
    (get ⟨name, [key, object], constant⟩ site).StopsAmong site.path among :=
  .stops (stuck.compileAt site (some .string) mem)

/-! ## Comparing -/

theorem comparisonOperand_stops {o : Operand ν} (stuck : o.Stuck) (c : Comparison) {position : Nat}
    (mem : among position) : (comparisonOperand c site position o).StopsAmong site.path among :=
  .stops (stuck.compileAt site (some .value) mem)

theorem comparisonOperand_reports {o : Operand ν} (reporting : o.Reporting) (c : Comparison)
    {position : Nat} (mem : among position) :
    (comparisonOperand c site position o).ReportsAmong site.path among fun _ => True := by
  refine .andThen (reporting.compileAt site (some .value) mem) ?_
  intro e _
  by_cases supported : c.supports e.ty = true
  · simp only [supported, if_true]
    exact .yields trivial
  · simp only [supported]
    exact .failAt [] _ mem

theorem comparisonOperands_stops {lhs rhs : Operand ν} (reporting : lhs.Reporting) (c : Comparison)
    (stuck : lhs.Stuck ∨ rhs.Stuck ∧ among 2) (mem : among 1) :
    (comparisonOperands c site lhs rhs).StopsAmong site.path among := by
  rcases stuck with stuck | ⟨stuck, second⟩
  · exact .stops (comparisonOperand_stops stuck c mem)
  · refine .andThen (comparisonOperand_reports reporting c mem) ?_
    intro e _
    exact .stops (comparisonOperand_stops stuck c second)

theorem compare_stops {name : String} {args : List (Operand ν)} {constant : Json ν → Operand ν}
    {n : Nat} {stuck : Operand ν} {c : Comparison} (symbol : Comparison.ofSymbol? name = some c)
    (arity : args.length = 2 ∨ args.length = 3) (reporting : ∀ o ∈ args, o.Reporting)
    (found : args[n]? = some stuck) (isStuck : stuck.Stuck) (early : n < 2)
    (mem : ∀ m ≤ n, among (m + 1)) :
    (compare ⟨name, args, constant⟩ site).StopsAmong site.path among := by
  have first : among 1 := mem 0 (Nat.zero_le n)
  have operands (lhs rhs : Operand ν) (more : List (Operand ν)) (eq : args = lhs :: rhs :: more) :
      (comparisonOperands c site lhs rhs).StopsAmong site.path among := by
    subst eq
    refine comparisonOperands_stops (reporting lhs (by simp)) c ?_ first
    rcases (by omega : n = 0 ∨ n = 1) with rfl | rfl
    · exact Or.inl (Option.some.inj found ▸ isStuck)
    · exact Or.inr ⟨Option.some.inj found ▸ isStuck, mem 1 (Nat.le_refl 1)⟩
  simp only [compare, symbol]
  rcases arity with two | three
  · obtain ⟨lhs, rhs, eq⟩ := List.length_eq_two.mp two
    subst eq
    exact .stops (operands lhs rhs [] rfl)
  · obtain ⟨lhs, rhs, through, eq⟩ := List.length_eq_three.mp three
    subst eq
    exact .stops (operands lhs rhs [through] rfl)

/-! ## Binding names -/

def inTurn {β : Type} (pairs : List (β × β)) : List β := pairs.flatMap fun p => [p.1, p.2]

@[simp] theorem inTurn_cons {β : Type} (p : β × β) (rest : List (β × β)) :
    inTurn (p :: rest) = p.1 :: p.2 :: inTurn rest := rfl

theorem inTurn_map {β γ : Type} (f : β → γ) (pairs : List (β × β)) :
    (inTurn pairs).map f = inTurn (pairs.map fun p => (f p.1, f p.2)) := by
  simp [inTurn, List.map_flatMap, List.flatMap_map]

theorem length_inTurn {β : Type} (pairs : List (β × β)) :
    (inTurn pairs).length = 2 * pairs.length := by
  induction pairs with
  | nil => rfl
  | cons p rest ih =>
    simp only [inTurn_cons, List.length_cons, ih]
    omega

def IsName (j : Json ν) : Prop := ∃ name, j = .str name ∧ isBindable name = true

theorem bindings_stops (body : Operand ν) : (pairs : List (Operand ν × Operand ν)) →
    (∀ b ∈ pairs, IsName b.1.json ∧ b.2.Reporting) → (position n : Nat) →
    {stuck : Operand ν × Operand ν} → pairs[n]? = some stuck → stuck.2.Stuck →
    (∀ m ≤ n, among (position + 1 + 2 * m)) →
    (bindings site position (inTurn pairs ++ [body])).StopsAmong site.path among
  | (name, value) :: rest, named, position, n, _, found, stuck, mem => by
    obtain ⟨⟨_, json, bindable⟩, reporting⟩ : IsName name.json ∧ value.Reporting :=
      named (name, value) (by simp)
    simp only [inTurn_cons, List.cons_append, bindings, json, bindable, if_true]
    cases n with
    | zero =>
      obtain rfl := Option.some.inj found
      exact .stops (stuck.compileAt site none (mem 0 (Nat.le_refl 0)))
    | succ n =>
      refine .andThen (reporting.compileAt site none (mem 0 (Nat.zero_le _))) ?_
      intro e _
      refine .stops (bindings_stops body rest (fun b mem => named b (by simp [mem])) (position + 2)
        n (by simpa using found) stuck ?_)
      intro m le
      have := mem (m + 1) (Nat.succ_le_succ le)
      rwa [show position + 1 + 2 * (m + 1) = position + 2 + 1 + 2 * m by omega] at this

theorem letIn_stops {name : String} {constant : Json ν → Operand ν}
    {bound : List (Operand ν × Operand ν)} {body : Operand ν} {n : Nat}
    (named : ∀ b ∈ bound, IsName b.1.json ∧ b.2.Reporting) {binding : Operand ν × Operand ν}
    (found : bound[n]? = some binding) (isStuck : binding.2.Stuck)
    (mem : ∀ m ≤ n, among (2 * m + 2)) :
    (letIn ⟨name, inTurn bound ++ [body], constant⟩ site).StopsAmong site.path among := by
  have inside : n < bound.length := (List.getElem?_eq_some_iff.mp found).1
  have enough : ¬ (inTurn bound ++ [body]).length < 3 := by
    rw [List.length_append, length_inTurn, List.length_singleton]
    omega
  simp only [letIn, enough, if_false, List.getLast?_concat]
  refine .stops (bindings_stops body bound named 1 n found isStuck ?_)
  intro m le
  rw [show 1 + 1 + 2 * m = 2 * m + 2 by omega]
  exact mem m le

/-! ## Interpolating -/

variable [Platform ν]

/-- Labels written as numbers of which none is at or below the one before. -/
def LabelsAscend : Option ν → List (Json ν) → Prop
  | _, [] => True
  | last, label :: rest =>
    ∃ x, label.asNumber? = some x ∧ (∀ l ∈ last, ¬ x ≤ l) ∧ LabelsAscend (some x) rest

theorem stops_stop : (pairs : List (Operand ν × Operand ν)) → (∀ s ∈ pairs, s.2.Reporting) →
    (position : Nat) → (last : Option ν) → LabelsAscend last (pairs.map fun s => s.1.json) →
    (t : Option Ty) → (n : Nat) → {stuck : Operand ν × Operand ν} → pairs[n]? = some stuck →
    stuck.2.Stuck → (∀ m ≤ n, among (position + 1 + 2 * m)) →
    (stops site position last t (inTurn pairs)).StopsAmong site.path among
  | (label, output) :: rest, reporting, position, last, ascend, t, n, _, found, stuck, mem => by
    obtain ⟨x, number, above, later⟩ := ascend
    have ordered : (last.any fun l => decide (x ≤ l)) = false := by
      cases last with
      | none => rfl
      | some l => simpa using above l rfl
    have number : label.json.asNumber? = some x := number
    have outputReporting : output.Reporting := reporting (label, output) (by simp)
    simp only [inTurn_cons, stops, number, ordered]
    cases n with
    | zero =>
      obtain rfl := Option.some.inj found
      exact .stops (stuck.compileAt site t (mem 0 (Nat.le_refl 0)))
    | succ n =>
      refine .andThen (outputReporting.compileAt site t (mem 0 (Nat.zero_le _))) ?_
      intro e _
      refine .stops (stops_stop rest (fun s mem => reporting s (by simp [mem])) (position + 2)
        (some x) later _ n (by simpa using found) stuck ?_)
      intro m le
      have := mem (m + 1) (Nat.succ_le_succ le)
      rwa [show position + 1 + 2 * (m + 1) = position + 2 + 1 + 2 * m by omega] at this

theorem interpolate_eq_andThen {name : String} {constant : Json ν → Operand ν}
    {curve input : Operand ν} {pairs : List (Operand ν × Operand ν)} {shape : Curve ν}
    (wellFormed : Operator.curve [curve] = .ok shape) (nonempty : pairs ≠ []) :
    interpolate ⟨name, curve :: input :: inTurn pairs, constant⟩ site = (do
      let input ← input.compileAt site 2 (some .number)
      let (stops, t) ← stops site 3 none (outputType (spaceOf name) site.expected) (inTurn pairs)
      let t := t.getD .value
      if t.isInterpolatable then pure (.interpolate t shape (spaceOf name) input stops)
      else site.fail (.notInterpolatable t)) := by
  have shaped : Operator.curve (curve :: input :: inTurn pairs) = .ok shape := wellFormed
  have length : (curve :: input :: inTurn pairs).length = 2 * pairs.length + 2 := by
    simp only [List.length_cons, length_inTurn]
  have positive : 0 < pairs.length := List.length_pos_iff.mpr nonempty
  have enough : ¬ (curve :: input :: inTurn pairs).length < 4 := by omega
  have even : ¬ (curve :: input :: inTurn pairs).length % 2 = 1 := by omega
  simp only [interpolate, shaped, enough, even, if_false]

theorem interpolate_stops {name : String} {constant : Json ν → Operand ν}
    {curve input : Operand ν} {pairs : List (Operand ν × Operand ν)} {shape : Curve ν}
    (wellFormed : Operator.curve [curve] = .ok shape) (nonempty : pairs ≠ [])
    (ascend : LabelsAscend none (pairs.map fun s => s.1.json)) (reporting : input.Reporting)
    (outputs : ∀ s ∈ pairs, s.2.Reporting)
    (stuck : input.Stuck ∨ ∃ stop n, pairs[n]? = some stop ∧ stop.2.Stuck ∧
      ∀ m ≤ n, among (2 * m + 4))
    (second : among 2) :
    (interpolate ⟨name, curve :: input :: inTurn pairs, constant⟩ site).StopsAmong
      site.path among := by
  rw [interpolate_eq_andThen wellFormed nonempty]
  rcases stuck with isStuck | ⟨stop, n, found, isStuck, mem⟩
  · exact .stops (isStuck.compileAt site (Option.some .number) second)
  · refine .andThen (reporting.compileAt site (Option.some .number) second) ?_
    intro e _
    refine .stops (stops_stop pairs outputs 3 none ascend _ n found isStuck ?_)
    intro m le
    rw [show 3 + 1 + 2 * m = 2 * m + 4 by omega]
    exact mem m le

end Operator

end MapStyle
