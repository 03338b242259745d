import MapStyle.Compile.Standard
import MapStyle.Proofs.Compile.SideBySide

/-!
# Parse functions side by side

For every operator: where the operands of some forms fit together, the compilations of the forms do.
Each proof follows its parse function; what decides there is the same for all forms, because it is a
document, a name or a type.
-/

set_option autoImplicit false

namespace MapStyle

namespace Operator

variable {ι ν : Type} [Scalar ν] {J : Judgement ι} {C : Congruence ι ν}
  {inForce : (ι → Scope ν) → Prop} {scope : ι → Scope ν} {path : List Nat}
  {expected : Option Ty}

/-! ## Constants and names -/

theorem literal_accepts (t : Ty) (expected : Option Ty) (untyped : t.EmptyIsUntyped) :
    (literalType t expected).accepts t = true := by
  unfold literalType
  split
  · rename_i item u
    simp [Ty.accepts, untyped.1 rfl]
  · rename_i item u
    simp [Ty.accepts, untyped.1 rfl]
  · exact Ty.accepts_self t

theorem literal_holds {f : Forms ι ν} (ready : f.Ready J C inForce) :
    J.Holds path (C.Fits none) fun i => literal (f.at i) ⟨path, scope i, expected⟩ := by
  obtain ⟨name, args, constant⟩ := f
  rcases args with _ | ⟨o, _ | ⟨o', rest⟩⟩
  · exact J.fails [] (.literalArguments 0)
  · obtain ⟨j, json, _⟩ := (ready.args o (by simp)).json
    simp only [literal, Forms.at, List.map_cons, List.map_nil, json]
    exact J.yields (Congruence.fits_none
      (C.literal j (literal_accepts _ expected (Value.ofJson j).ty_emptyIsUntyped)))
  · simp only [literal, Forms.at, List.map_cons, List.length_cons, List.length_map]
    exact J.fails [] _

theorem var_holds {C : Correspondence ι ν} {f : Forms ι ν}
    (ready : f.Ready J C.toCongruence inForce) (scopes : C.Scopes scope) :
    J.Holds path (C.Fits none) fun i => var (f.at i) ⟨path, scope i, expected⟩ := by
  obtain ⟨name, args, constant⟩ := f
  rcases args with _ | ⟨o, _ | ⟨o', rest⟩⟩
  · exact J.fails [] _
  · obtain ⟨j, json, _⟩ := (ready.args o (by simp)).json
    simp only [var, Forms.at, List.map_cons, List.map_nil, json]
    cases j with
    | str name =>
      rcases scopes name with unbound | ⟨t, bound, together, found⟩
      · simp only [unbound]
        exact J.fails [1] _
      · simp only [found]
        exact J.yields (Congruence.fits_none (C.var name together))
    | _ => exact J.fails [] _
  · exact J.fails [] _

def BindTogether (C : Congruence ι ν) (bound : ι → List (String × Expr ν)) : Prop :=
  ∃ bs : List (String × (ι → Expr ν)), (bound = fun i => bs.map fun b => (b.1, b.2 i)) ∧
    ∀ b ∈ bs, ∃ t, C.Together t b.2

theorem bindings_holds (scopes : inForce scope) : (args : List (ι → Operand ν)) →
    (∀ o ∈ args, Ready J C inForce o) → (position : Nat) →
    J.Holds path (BindTogether C) fun i =>
      bindings ⟨path, scope i, expected⟩ position (args.map (· i))
  | [], _, _ => J.yields ⟨[], rfl, by simp⟩
  | [_], _, _ => J.yields ⟨[], rfl, by simp⟩
  | name :: value :: rest, ready, position => by
    obtain ⟨j, json, _⟩ := (ready name (by simp)).json
    have valueReady := (ready value (by simp)).toReadable
    have restReady : ∀ o ∈ rest, Ready J C inForce o := fun o mem => ready o (by simp [mem])
    simp only [List.map_cons, bindings, json]
    cases j with
    | str n =>
      by_cases bindable : isBindable n = true
      · simp only [bindable, if_true]
        refine J.andThen (valueReady.compileAt scopes path expected none (position + 1)) ?_
        rintro e ⟨t, together, _⟩
        refine J.andThen (bindings_holds scopes rest restReady (position + 2)) ?_
        rintro more ⟨bs, rfl, all⟩
        refine J.yields ⟨(n, e) :: bs, rfl, ?_⟩
        intro b mem
        rcases List.mem_cons.mp mem with rfl | mem
        · exact ⟨t, together⟩
        · exact all b mem
      · simp only [bindable]
        exact J.fails [position] _
    | _ => exact J.fails [position] _

/-- Forms of `let` fit together if their bodies do in the scopes that the bindings extend. -/
theorem letIn_holds_of_extend {C' : Congruence ι ν} {inForce' : (ι → Scope ν) → Prop}
    {f : Forms ι ν} (ready : f.Ready J C inForce) (bodyReady : f.Ready J C' inForce')
    (scopes : inForce scope)
    (extend : ∀ bs : List (String × (ι → Expr ν)), (∀ b ∈ bs, ∃ t, C.Together t b.2) →
      inForce' (fun i => (scope i).extend (bs.map fun b => (b.1, b.2 i))) ∧
      ∀ (t : Ty) (body : ι → Expr ν), C'.Together t body →
        C.Together t fun i => .letIn (bs.map fun b => (b.1, b.2 i)) (body i)) :
    J.Holds path (C.Fits none) fun i => letIn (f.at i) ⟨path, scope i, expected⟩ := by
  simp only [letIn, Forms.at, List.length_map, List.getLast?_map]
  by_cases few : f.args.length < 3
  · simp only [few, if_true]
    exact J.fails [] _
  · simp only [few, if_false]
    cases last : f.args.getLast? with
    | none => exact J.fails [] _
    | some body =>
      have bodyReady := (bodyReady.args body (List.mem_of_getLast? last)).toReadable
      refine J.andThen (bindings_holds scopes f.args ready.args 1) ?_
      rintro bound ⟨bs, rfl, all⟩
      obtain ⟨extended, makes⟩ := extend bs all
      have inner := J.above f.args.length
        (bodyReady.compile (path ++ [f.args.length]) _ expected extended)
      refine J.andThen inner ?_
      rintro e ⟨t, together, _⟩
      exact J.yields (Congruence.fits_none (makes t e together))

theorem letIn_holds {C : Correspondence ι ν} {f : Forms ι ν}
    (ready : f.Ready J C.toCongruence C.Scopes) (scopes : C.Scopes scope) :
    J.Holds path (C.Fits none) fun i => letIn (f.at i) ⟨path, scope i, expected⟩ :=
  letIn_holds_of_extend ready ready scopes fun _ all => ⟨scopes.extend all, fun _ _ => C.letIn all⟩

/-! ## Reading and searching -/

theorem get_holds {f : Forms ι ν} (ready : f.Ready J C inForce) (scopes : inForce scope) :
    J.Holds path (C.Fits none) fun i => get (f.at i) ⟨path, scope i, expected⟩ := by
  obtain ⟨name, args, constant⟩ := f
  rcases args with _ | ⟨key, _ | ⟨object, _ | ⟨third, rest⟩⟩⟩
  · exact J.fails [] (.getArguments 0)
  · have keyReady := (ready.args key (by simp)).toReadable
    refine J.andThen (keyReady.compileAt scopes path expected (some .string) 1) ?_
    rintro k ⟨t, together, _⟩
    exact J.yields (Congruence.fits_none (C.get none together (by simp)))
  · have keyReady := (ready.args key (by simp)).toReadable
    have objectReady := (ready.args object (by simp)).toReadable
    refine J.andThen (keyReady.compileAt scopes path expected (some .string) 1) ?_
    rintro k ⟨t, together, _⟩
    refine J.andThen (objectReady.compileAt scopes path expected (some .object) 2) ?_
    rintro o ⟨u, objectTogether, _⟩
    refine J.yields (Congruence.fits_none (C.get (some o) together ?_))
    intro o' mem
    cases mem
    exact ⟨u, objectTogether⟩
  · simp only [get, Forms.at, List.map_cons, List.length_cons, List.length_map]
    exact J.fails [] _

theorem zoom_holds {f : Forms ι ν} :
    J.Holds path (C.Fits none) fun i => zoom (f.at i) ⟨path, scope i, expected⟩ := by
  obtain ⟨name, args, constant⟩ := f
  rcases args with _ | ⟨o, rest⟩
  · exact J.yields (Congruence.fits_none C.zoom)
  · simp only [zoom, Forms.at, List.map_cons, List.length_cons, List.length_map]
    exact J.fails [] _

theorem access_holds {f : Forms ι ν} :
    J.Holds path (C.Fits none) fun i => access (f.at i) ⟨path, scope i, expected⟩ := by
  obtain ⟨name, args, constant⟩ := f
  simp only [access, Forms.at]
  cases Accessor.ofName? name with
  | none => exact J.fails [] _
  | some a =>
    rcases args with _ | ⟨o, rest⟩
    · exact J.yields (Congruence.fits_none (C.access a))
    · simp only [List.map_cons, List.length_cons, List.length_map]
      exact J.fails [] _

def PairTogether (C : Congruence ι ν) (pair : ι → Expr ν × Expr ν) : Prop :=
  ∃ t u, C.Together t (fun i => (pair i).1) ∧ C.Together u fun i => (pair i).2

theorem needleAndHaystack_holds {needle haystack : ι → Operand ν}
    (needleReady : Readable J C inForce needle) (haystackReady : Readable J C inForce haystack)
    (scopes : inForce scope) :
    J.Holds path (PairTogether C) fun i =>
      needleAndHaystack ⟨path, scope i, expected⟩ (needle i) (haystack i) := by
  refine J.andThen (J.both (needleReady.compileAt scopes path expected (some .value) 1)
    (haystackReady.compileAt scopes path expected (some .value) 2)) ?_
  rintro pair ⟨⟨t, together, _⟩, ⟨u, haystackTogether, _⟩⟩
  simp only [C.ty_eq together]
  by_cases needleType : t.isAmong needleTypes = true
  · simp only [needleType, if_true]
    exact J.yields ⟨t, u, together, haystackTogether⟩
  · simp only [needleType]
    exact J.fails [] _

theorem indexOf_holds {f : Forms ι ν} (ready : f.Ready J C inForce) (scopes : inForce scope) :
    J.Holds path (C.Fits none) fun i => indexOf (f.at i) ⟨path, scope i, expected⟩ := by
  obtain ⟨name, args, constant⟩ := f
  rcases args with _ | ⟨needle, _ | ⟨haystack, _ | ⟨start, _ | ⟨fourth, rest⟩⟩⟩⟩
  · exact J.fails [] (.indexOfArguments 0)
  · exact J.fails [] (.indexOfArguments 1)
  · have needleReady := (ready.args needle (by simp)).toReadable
    have haystackReady := (ready.args haystack (by simp)).toReadable
    refine J.andThen (needleAndHaystack_holds needleReady haystackReady scopes) ?_
    rintro pair ⟨t, u, needleTogether, haystackTogether⟩
    exact J.yields (Congruence.fits_none
      (C.indexOf none needleTogether haystackTogether (by simp)))
  · have needleReady := (ready.args needle (by simp)).toReadable
    have haystackReady := (ready.args haystack (by simp)).toReadable
    have startReady := (ready.args start (by simp)).toReadable
    refine J.andThen (needleAndHaystack_holds needleReady haystackReady scopes) ?_
    rintro pair ⟨t, u, needleTogether, haystackTogether⟩
    refine J.andThen (startReady.compileAt scopes path expected (some .number) 3) ?_
    rintro s ⟨w, startTogether, _⟩
    refine J.yields (Congruence.fits_none
      (C.indexOf (some s) needleTogether haystackTogether ?_))
    intro s' mem
    cases mem
    exact ⟨w, startTogether⟩
  · simp only [indexOf, Forms.at, List.map_cons, List.length_cons, List.length_map]
    exact J.fails [] _

/-! ## Comparing -/

theorem comparisonOperand_holds {o : ι → Operand ν} (readable : Readable J C inForce o)
    (scopes : inForce scope) (c : Comparison) (position : Nat) :
    J.Holds path (C.Fits none) fun i =>
      comparisonOperand c ⟨path, scope i, expected⟩ position (o i) := by
  refine J.andThen (readable.compileAt scopes path expected (some .value) position) ?_
  rintro e ⟨t, together, _⟩
  simp only [C.ty_eq together]
  by_cases supported : c.supports t = true
  · simp only [supported, if_true]
    exact J.yields (Congruence.fits_none together)
  · simp only [supported]
    exact J.fails [position] _

theorem comparisonOperands_holds {lhs rhs : ι → Operand ν} (left : Readable J C inForce lhs)
    (right : Readable J C inForce rhs) (scopes : inForce scope) (c : Comparison) :
    J.Holds path (PairTogether C) fun i =>
      comparisonOperands c ⟨path, scope i, expected⟩ (lhs i) (rhs i) := by
  refine J.andThen (comparisonOperand_holds left scopes c 1) ?_
  rintro l ⟨t, leftTogether, _⟩
  refine J.andThen (comparisonOperand_holds right scopes c 2) ?_
  rintro r ⟨u, rightTogether, _⟩
  simp only [C.ty_eq leftTogether, C.ty_eq rightTogether]
  by_cases comparable : areComparable t u = true
  · simp only [comparable, if_true]
    exact J.yields ⟨t, u, leftTogether, rightTogether⟩
  · simp only [comparable]
    exact J.fails [] _

theorem checkedAgainst_together {t u : Ty} {e other : ι → Expr ν} (together : C.Together t e)
    (otherTogether : C.Together u other) :
    ∃ w, C.Together w fun i => checkedAgainst (e i) (other i) := by
  simp only [checkedAgainst, C.ty_eq together, C.ty_eq otherTogether]
  by_cases checked : t = .value ∧ u ≠ .value
  · simp only [checked, and_self, if_true, ne_eq, not_false_eq_true]
    refine ⟨u, C.assertion u [e] ?_⟩
    intro a mem
    obtain rfl := List.mem_singleton.mp mem
    exact ⟨t, together⟩
  · simp only [checked, if_false]
    exact ⟨t, together⟩

theorem comparisonNode_together {t u : Ty} {lhs rhs : ι → Expr ν} (c : Comparison)
    (through : Option (ι → Expr ν)) (left : C.Together t lhs) (right : C.Together u rhs)
    (throughTogether : ∀ k ∈ through, ∃ w, C.Together w k) :
    C.Fits none fun i => comparisonNode c (lhs i) (rhs i) (through.map (· i)) := by
  obtain ⟨t', left'⟩ := checkedAgainst_together left right
  obtain ⟨u', right'⟩ := checkedAgainst_together right left
  unfold comparisonNode
  by_cases order : c.isOrder = true
  · simp only [order, if_true]
    exact Congruence.fits_none (C.compare c through left' right' throughTogether)
  · simp only [order]
    exact Congruence.fits_none (C.compare c through left right throughTogether)

theorem compare_holds {f : Forms ι ν} (ready : f.Ready J C inForce) (scopes : inForce scope) :
    J.Holds path (C.Fits none) fun i => compare (f.at i) ⟨path, scope i, expected⟩ := by
  obtain ⟨name, args, constant⟩ := f
  simp only [compare, Forms.at]
  cases Comparison.ofSymbol? name with
  | none => exact J.fails [] _
  | some c =>
    rcases args with _ | ⟨lhs, _ | ⟨rhs, _ | ⟨through, _ | ⟨fourth, rest⟩⟩⟩⟩
    · exact J.fails [] _
    · exact J.fails [] _
    · have left := (ready.args lhs (by simp)).toReadable
      have right := (ready.args rhs (by simp)).toReadable
      refine J.andThen (comparisonOperands_holds left right scopes c) ?_
      rintro pair ⟨t, u, leftTogether, rightTogether⟩
      exact J.yields (comparisonNode_together c none leftTogether rightTogether (by simp))
    · have left := (ready.args lhs (by simp)).toReadable
      have right := (ready.args rhs (by simp)).toReadable
      have throughReady := (ready.args through (by simp)).toReadable
      refine J.andThen (comparisonOperands_holds left right scopes c) ?_
      rintro pair ⟨t, u, leftTogether, rightTogether⟩
      simp only [C.ty_eq leftTogether, C.ty_eq rightTogether]
      by_cases text : (mayBeText t || mayBeText u) = true
      · simp only [text, if_true]
        refine J.andThen (throughReady.compileAt scopes path expected (some .collator) 3) ?_
        rintro k ⟨w, throughTogether, _⟩
        refine J.yields
          (comparisonNode_together c (some k) leftTogether rightTogether ?_)
        intro k' mem
        cases mem
        exact ⟨w, throughTogether⟩
      · simp only [text]
        exact J.fails [] _
    · exact J.fails [] _

theorem flag_readable {f : Forms ι ν} (ready : f.Ready J C inForce)
    {ms : List (String × (ι → Operand ν))} (members : ∀ m ∈ ms, Readable J C inForce m.2)
    (key : String) :
    Readable J C inForce fun i => flag (f.at i) (ms.map fun m => (m.1, m.2 i)) key := by
  simp only [flag, lookup_map_at]
  cases found : ms.lookup key with
  | none => exact ready.constant false
  | some o => exact members _ (mem_of_lookup found)

theorem collator_holds {f : Forms ι ν} (ready : f.Ready J C inForce) (scopes : inForce scope) :
    J.Holds path (C.Fits none) fun i => collator (f.at i) ⟨path, scope i, expected⟩ := by
  obtain ⟨name, args, constant⟩ := f
  rcases args with _ | ⟨o, _ | ⟨o', rest⟩⟩
  · exact J.fails [] _
  · have operand := ready.args o (by simp)
    obtain ⟨j, json, _⟩ := operand.json
    obtain ⟨ms, membersEq, members⟩ := operand.members
    have flagReady := flag_readable ready members
    simp only [collator, Forms.at, List.map_cons, List.map_nil, json, membersEq]
    cases j with
    | obj options =>
      refine J.andThen ((flagReady "case-sensitive").compileAt scopes path expected
        (some .boolean) 1) ?_
      rintro case ⟨t, caseTogether, _⟩
      refine J.andThen ((flagReady "diacritic-sensitive").compileAt scopes path expected
        (some .boolean) 1) ?_
      rintro diacritic ⟨u, diacriticTogether, _⟩
      have withoutLocale : J.Holds path (C.Fits none) fun i =>
          pure (Expr.collator (case i) (diacritic i) none) :=
        J.yields (Congruence.fits_none
          (C.collator none caseTogether diacriticTogether (by simp)))
      simp only [lookup_map_at]
      cases found : ms.lookup "locale" with
      | none => exact withoutLocale
      | some locale =>
        have localeReady : Readable J C inForce locale := members _ (mem_of_lookup found)
        obtain ⟨l, localeJson, _⟩ := localeReady.json
        simp only [Option.map_some, localeJson]
        by_cases isNull : l.isNull = true
        · simp only [isNull, if_true]
          exact withoutLocale
        · simp only [isNull]
          refine J.andThen (localeReady.compileAt scopes path expected (some .string) 1) ?_
          rintro e ⟨w, localeTogether, _⟩
          refine J.yields (Congruence.fits_none
            (C.collator (some e) caseTogether diacriticTogether ?_))
          intro e' mem
          cases mem
          exact ⟨w, localeTogether⟩
    | _ => exact J.fails [] _
  · exact J.fails [] _

theorem resolvedLocale_holds {f : Forms ι ν} (ready : f.Ready J C inForce)
    (scopes : inForce scope) :
    J.Holds path (C.Fits none) fun i => resolvedLocale (f.at i) ⟨path, scope i, expected⟩ := by
  obtain ⟨name, args, constant⟩ := f
  rcases args with _ | ⟨o, _ | ⟨o', rest⟩⟩
  · exact J.fails [] _
  · have readable := (ready.args o (by simp)).toReadable
    refine J.andThen (readable.compileAt scopes path expected (some .collator) 1) ?_
    rintro c ⟨t, together, _⟩
    exact J.yields (Congruence.fits_none (C.resolvedLocale together))
  · exact J.fails [] _

/-! ## Asserting types -/

def AllTogether (C : Congruence ι ν) (es : ι → List (Expr ν)) : Prop :=
  ∃ each : List (ι → Expr ν), (es = fun i => each.map (· i)) ∧ ∀ e ∈ each, ∃ t, C.Together t e

theorem compileAll_holds (scopes : inForce scope) (t : Option Ty) : (args : List (ι → Operand ν)) →
    (∀ o ∈ args, Ready J C inForce o) → (position : Nat) →
    J.Holds path (AllTogether C) fun i =>
      Operand.compileAll ⟨path, scope i, expected⟩ t position (args.map (· i))
  | [], _, _ => J.yields ⟨[], rfl, by simp⟩
  | o :: rest, ready, position => by
    have readable := (ready o (by simp)).toReadable
    have restReady : ∀ o ∈ rest, Ready J C inForce o := fun o mem => ready o (by simp [mem])
    refine J.andThen (readable.compileAt scopes path expected t position) ?_
    rintro e ⟨u, together, _⟩
    refine J.andThen (compileAll_holds scopes t rest restReady (position + 1)) ?_
    rintro es ⟨each, rfl, all⟩
    refine J.yields ⟨e :: each, rfl, ?_⟩
    intro e' mem
    rcases List.mem_cons.mp mem with rfl | mem
    · exact ⟨u, together⟩
    · exact all e' mem

theorem assertion_holds {args : List (ι → Operand ν)} (ready : ∀ o ∈ args, Ready J C inForce o)
    (scopes : inForce scope) (t : Ty) (position : Nat) :
    J.Holds path (C.Fits none) fun i =>
      assertion ⟨path, scope i, expected⟩ t position (args.map (· i)) := by
  refine J.andThen (compileAll_holds scopes (some .value) args ready position) ?_
  rintro es ⟨each, rfl, all⟩
  exact J.yields (Congruence.fits_none (C.assertion t each all))

theorem assertArray_holds {args : List (ι → Operand ν)} (ready : ∀ o ∈ args, Ready J C inForce o)
    (scopes : inForce scope) :
    J.Holds path (C.Fits none) fun i =>
      assertArray ⟨path, scope i, expected⟩ (args.map (· i)) := by
  rcases args with _ | ⟨item, _ | ⟨length, _ | ⟨arg, rest⟩⟩⟩
  · exact assertion_holds ready scopes _ 1
  · exact assertion_holds ready scopes _ 1
  · obtain ⟨j, json, _⟩ := (ready item (by simp)).json
    have argReady : ∀ o ∈ [length], Ready J C inForce o := fun o mem => ready o (by simp_all)
    simp only [assertArray, List.map_cons, List.map_nil, json]
    cases itemType? j with
    | none => exact J.fails [1] _
    | some t => exact assertion_holds argReady scopes _ 2
  · obtain ⟨j, json, _⟩ := (ready item (by simp)).json
    obtain ⟨l, lengthJson, _⟩ := (ready length (by simp)).json
    have argsReady : ∀ o ∈ arg :: rest, Ready J C inForce o := fun o mem => ready o (by simp_all)
    simp only [assertArray, List.map_cons, json, lengthJson]
    cases itemType? j with
    | none => exact J.fails [1] _
    | some t =>
      cases length? l with
      | none => exact J.fails [2] _
      | some n => exact assertion_holds argsReady scopes _ 3

theorem assert_holds {f : Forms ι ν} (ready : f.Ready J C inForce) (scopes : inForce scope) :
    J.Holds path (C.Fits none) fun i => assert (f.at i) ⟨path, scope i, expected⟩ := by
  simp only [assert, Forms.at, List.isEmpty_map]
  by_cases empty : f.args.isEmpty = true
  · simp only [empty, if_true]
    exact J.fails [] _
  · simp only [empty]
    cases assertedType? f.name with
    | none => exact assertArray_holds ready.args scopes
    | some t => exact assertion_holds ready.args scopes t 1

/-! ## Interpolating -/

theorem curve_at {args : List (ι → Operand ν)} (ready : ∀ o ∈ args, Ready J C inForce o) :
    ∃ c : Except (List Nat × Fault) (Curve ν), ∀ i, curve (args.map (· i)) = c := by
  rcases args with _ | ⟨o, rest⟩
  · exact ⟨_, fun _ => rfl⟩
  · obtain ⟨j, json, _⟩ := (ready o (by simp)).json
    simp only [curve, List.map_cons, List.head?_cons, Option.map_some, json]
    exact ⟨_, fun _ => rfl⟩

/-- Stops at the same labels whose outputs belong together and have types for which that of the
outputs stands; `last` is the label before them, and `given` the type that is known before. -/
def StopsTogether (C : Congruence ι ν) (last : Option ν) (given : Option Ty) (count : Nat)
    (result : ι → List (ν × Expr ν) × Option Ty) : Prop :=
  ∃ (ss : List (ν × (ι → Expr ν))) (t : Option Ty),
    (result = fun i => (ss.map fun s => (s.1, s.2 i), t)) ∧ (2 ≤ count → ss ≠ []) ∧
    LabelsRead C.Number last (ss.map (·.1)) ∧
    (∀ u, given = some u → t = some u) ∧
    ∀ s ∈ ss, ∃ u, t = some u ∧ ∃ w, C.Together w s.2 ∧ u.accepts w = true

theorem stops_holds (scopes : inForce scope) : (args : List (ι → Operand ν)) →
    (∀ o ∈ args, Ready J C inForce o) → (position : Nat) → (last : Option ν) → (given : Option Ty) →
    J.Holds path (StopsTogether C last given args.length) fun i =>
      stops ⟨path, scope i, expected⟩ position last given (args.map (· i))
  | [], _, _, _, given =>
    J.yields ⟨[], given, rfl, by simp, .nil, fun _ h => h, by simp⟩
  | [_], _, _, _, given =>
    J.yields ⟨[], given, rfl, by simp, .nil, fun _ h => h, by simp⟩
  | label :: output :: rest, ready, position, last, given => by
    obtain ⟨j, json, isNumber⟩ := (ready label (by simp)).json
    have readable := (ready output (by simp)).toReadable
    have restReady : ∀ o ∈ rest, Ready J C inForce o := fun o mem => ready o (by simp [mem])
    simp only [List.map_cons, stops, json]
    cases number : j.asNumber? with
    | none => exact J.fails [position] _
    | some x =>
      by_cases unordered : (last.any fun l => decide (x ≤ l)) = true
      · simp only [unordered, if_true]
        exact J.fails [position] _
      · have above : ∀ l ∈ last, ¬ x ≤ l := by
          intro l isLast le
          obtain rfl := isLast
          exact unordered (decide_eq_true le)
        simp only [unordered]
        refine J.andThen (readable.compileAt scopes path expected given (position + 1)) ?_
        rintro e ⟨w, together, fits⟩
        simp only [C.ty_eq together]
        refine J.andThen (stops_holds scopes rest restReady (position + 2) (some x)
          (some (given.getD w))) ?_
        rintro more ⟨ss, t, rfl, _, labels, known, all⟩
        obtain rfl := known _ rfl
        refine J.yields ⟨(x, e) :: ss, some (given.getD w), rfl, by simp,
          .cons (isNumber x number) above labels, ?_, ?_⟩
        · rintro u rfl
          rfl
        · intro s mem
          rcases List.mem_cons.mp mem with rfl | mem
          · refine ⟨given.getD w, rfl, w, together, ?_⟩
            cases given with
            | none => exact Ty.accepts_self w
            | some u => exact fits u rfl
          · exact all s mem

theorem interpolate_holds {f : Forms ι ν} (ready : f.Ready J C inForce) (scopes : inForce scope) :
    J.Holds path (C.Fits none) fun i => interpolate (f.at i) ⟨path, scope i, expected⟩ := by
  obtain ⟨name, args, constant⟩ := f
  obtain ⟨c, curveEq⟩ := curve_at ready.args
  simp only [interpolate, Forms.at, List.length_map, curveEq]
  cases c with
  | error e => exact J.fails _ _
  | ok curve =>
    by_cases few : args.length < 4
    · simp only [few, if_true]
      exact J.fails [] _
    · by_cases odd : args.length % 2 = 1
      · simp only [few, odd, if_true, if_false]
        exact J.fails [] _
      · simp only [few, odd, if_false]
        rcases args with _ | ⟨curveOperand, _ | ⟨input, pairs⟩⟩
        · exact absurd (by simp) few
        · exact absurd (by simp) few
        · have inputReady := (ready.args input (by simp)).toReadable
          have pairsReady : ∀ o ∈ pairs, Ready J C inForce o :=
            fun o mem => ready.args o (by simp [mem])
          have two : 2 ≤ pairs.length := by
            simp only [List.length_cons] at few
            omega
          refine J.andThen (inputReady.compileAt scopes path expected (some .number) 2) ?_
          rintro x ⟨u, inputTogether, _⟩
          refine J.andThen (stops_holds scopes pairs pairsReady 3 none _) ?_
          rintro result ⟨ss, t, rfl, nonempty, labels, _, all⟩
          by_cases blends : (t.getD .value).isInterpolatable = true
          · simp only [blends, if_true]
            refine J.yields (Congruence.fits_none (C.interpolate curve (spaceOf name) blends
              inputTogether (nonempty two) labels ?_))
            intro s mem
            obtain ⟨v, rfl, outputFits⟩ := all s mem
            exact outputFits
          · simp only [blends]
            exact J.fails [] _

end Operator

namespace Builtin

open Operator

variable {ι ν : Type} [Scalar ν] {J : Judgement ι} {scope : ι → Scope ν} {path : List Nat}
  {expected : Option Ty} {f : Forms ι ν}

/-- Every parse function that neither uses nor binds names keeps forms together whose operands fit
together. -/
theorem parse_holds_of_nameless {C : Congruence ι ν} {inForce : (ι → Scope ν) → Prop}
    (b : Builtin) (notVar : b ≠ .var) (notLet : b ≠ .letIn) (ready : f.Ready J C inForce)
    (scopes : inForce scope) :
    J.Holds path (C.Fits none) fun i => b.parse (f.at i) ⟨path, scope i, expected⟩ := by
  cases b with
  | literal => exact literal_holds ready
  | var => exact absurd rfl notVar
  | letIn => exact absurd rfl notLet
  | indexOf => exact indexOf_holds ready scopes
  | get => exact get_holds ready scopes
  | zoom => exact zoom_holds
  | access => exact access_holds
  | collator => exact collator_holds ready scopes
  | resolvedLocale => exact resolvedLocale_holds ready scopes
  | compare => exact compare_holds ready scopes
  | assert => exact assert_holds ready scopes
  | interpolate => exact interpolate_holds ready scopes

/-- Every parse function of the style language keeps forms together whose operands fit together. -/
theorem parse_holds {C : Correspondence ι ν} (b : Builtin)
    (ready : f.Ready J C.toCongruence C.Scopes) (scopes : C.Scopes scope) :
    J.Holds path (C.Fits none) fun i => b.parse (f.at i) ⟨path, scope i, expected⟩ := by
  by_cases isVar : b = .var
  · obtain rfl := isVar
    exact var_holds ready scopes
  · by_cases isLet : b = .letIn
    · obtain rfl := isLet
      exact letIn_holds ready scopes
    · exact parse_holds_of_nameless b isVar isLet ready scopes

end Builtin

end MapStyle
