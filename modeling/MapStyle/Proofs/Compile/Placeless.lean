import MapStyle.Proofs.Compile.Scoping

/-!
# Compiling at different places

What a document compiles to depends on the names bound around it and on the expected type, and
neither on the place where it stands nor on what was found wrong before.  The parse functions use
the place in faults only; so each of them has one result at two places, where its operands do.
Families that run side by side stand at one place, so what holds of them does not say this.
-/

set_option autoImplicit false

namespace MapStyle

/-! ## Compilations with one result -/

namespace Compiling

variable {α β : Type}

/-- Two compilations have the same result, whatever was found wrong before either. -/
def SameResult (m n : Compiling α) : Prop := ∀ ds ds', m.result? ds = n.result? ds'

namespace SameResult

theorem pure (a : α) : SameResult (Pure.pure a) (Pure.pure a) := fun _ _ => rfl

theorem failAt {ν : Type} {s s' : Site ν} {below below' : List Nat} {fault fault' : Fault} :
    SameResult (s.failAt below fault : Compiling α) (s'.failAt below' fault') := fun _ _ => rfl

theorem bind {m n : Compiling α} {f g : α → Compiling β} (first : SameResult m n)
    (next : ∀ a, SameResult (f a) (g a)) : SameResult (m >>= f) (n >>= g) := by
  intro ds ds'
  cases result : m.result? ds with
  | none =>
    have result' : n.result? ds' = none := (first ds ds').symm.trans result
    rw [result?_bind_of_none f result, result?_bind_of_none g result']
  | some a =>
    have result' : n.result? ds' = some a := (first ds ds').symm.trans result
    obtain ⟨after, done⟩ := result?_eq_some.mp result
    obtain ⟨after', done'⟩ := result?_eq_some.mp result'
    rw [result?_bind_of_some f done, result?_bind_of_some g done']
    exact next a after after'

theorem both {m n : Compiling α} {k l : Compiling β} (first : SameResult m n)
    (second : SameResult k l) : SameResult (m.both k) (n.both l) := by
  intro ds ds'
  cases result : m.result? ds with
  | none =>
    have result' : n.result? ds' = none := (first ds ds').symm.trans result
    rw [result?_both_of_none k result, result?_both_of_none l result']
  | some a =>
    have result' : n.result? ds' = some a := (first ds ds').symm.trans result
    obtain ⟨after, done⟩ := result?_eq_some.mp result
    obtain ⟨after', done'⟩ := result?_eq_some.mp result'
    rw [result?_both_of_some k done, result?_both_of_some l done', second after after']

end SameResult

theorem exists_of_result?_bind {m : Compiling α} {next : α → Compiling β} {ds : List Diagnostic}
    {b : β} (done : (m >>= next).result? ds = some b) :
    ∃ a ds', m.result? ds = some a ∧ (next a).result? ds' = some b := by
  obtain ⟨after, done⟩ := result?_eq_some.mp done
  obtain ⟨a, ds', first, later⟩ := bind_eq_some done
  exact ⟨a, ds', result?_eq_some.mpr ⟨ds', first⟩, result?_eq_some.mpr ⟨after, later⟩⟩

theorem result?_bind_eq_some {m : Compiling α} {next : α → Compiling β} {ds : List Diagnostic}
    {a : α} {b : β} (first : m.result? ds = some a)
    (later : ∀ ds', (next a).result? ds' = some b) : (m >>= next).result? ds = some b := by
  obtain ⟨ds', done⟩ := result?_eq_some.mp first
  exact (result?_bind_of_some next done).trans (later ds')

end Compiling

open Compiling (SameResult)

variable {ν : Type}

/-- An operand whose result is the same at all places. -/
def Operand.Placeless (o : Operand ν) : Prop :=
  ∀ (p p' : List Nat) (S : Scope ν) (t : Option Ty),
    SameResult (o.compile ⟨p, S, t⟩) (o.compile ⟨p', S, t⟩)

/-- A form whose operands, their members and its constants have results that are the same at all
places. -/
structure Form.Placeless (f : Form ν) : Prop where
  args : ∀ o ∈ f.args, o.Placeless ∧ ∀ m ∈ o.members, m.2.Placeless
  constant : ∀ b : Bool, (f.constant (.bool b)).Placeless

theorem Operand.Placeless.compileAt {o : Operand ν} (placeless : o.Placeless) (p p' : List Nat)
    (S : Scope ν) (u : Option Ty) (position : Nat) (t : Option Ty) :
    SameResult (o.compileAt ⟨p, S, u⟩ position t) (o.compileAt ⟨p', S, u⟩ position t) :=
  placeless (p ++ [position]) (p' ++ [position]) S t

/-! ## Parse functions -/

namespace Operator

variable {f : Form ν} {p p' : List Nat} {S : Scope ν} {t : Option Ty}

theorem literal_sameResult [Scalar ν] :
    SameResult (literal f ⟨p, S, t⟩) (literal f ⟨p', S, t⟩) := by
  unfold literal
  split
  · exact .pure _
  · exact .failAt

theorem var_sameResult [Scalar ν] : SameResult (var f ⟨p, S, t⟩) (var f ⟨p', S, t⟩) := by
  unfold var
  split
  · split
    · dsimp only
      split
      · exact .pure _
      · exact .failAt
    · exact .failAt
  · exact .failAt

theorem bindings_sameResult [Scalar ν] : (position : Nat) → (args : List (Operand ν)) →
    (∀ o ∈ args, o.Placeless) →
    SameResult (bindings ⟨p, S, t⟩ position args) (bindings ⟨p', S, t⟩ position args)
  | _, [], _ => .pure _
  | _, [_], _ => .pure _
  | position, name :: value :: rest, placeless => by
    have valuePlaceless := placeless value (by simp)
    have later := bindings_sameResult (position + 2) rest fun o mem => placeless o (by simp [mem])
    unfold bindings
    split
    · split
      · refine .bind (valuePlaceless.compileAt p p' S t (position + 1) none) fun e => ?_
        exact .bind later fun more => .pure _
      · exact .failAt
    · exact .failAt

theorem letIn_sameResult [Scalar ν] (placeless : f.Placeless) :
    SameResult (letIn f ⟨p, S, t⟩) (letIn f ⟨p', S, t⟩) := by
  unfold letIn
  split
  · exact .failAt
  · split
    · exact .failAt
    · rename_i body last
      have bodyPlaceless := (placeless.args body (List.mem_of_getLast? last)).1
      refine .bind (bindings_sameResult 1 f.args fun o mem => (placeless.args o mem).1) ?_
      intro bound
      exact .bind (bodyPlaceless _ _ _ _) fun e => .pure _

theorem get_sameResult (placeless : f.Placeless) :
    SameResult (get f ⟨p, S, t⟩) (get f ⟨p', S, t⟩) := by
  obtain ⟨name, args, constant⟩ := f
  rcases args with _ | ⟨key, _ | ⟨object, _ | ⟨third, rest⟩⟩⟩
  · exact .failAt
  · have keyPlaceless := (placeless.args key (by simp)).1
    exact .bind (keyPlaceless.compileAt p p' S t 1 _) fun k => .pure _
  · have keyPlaceless := (placeless.args key (by simp)).1
    have objectPlaceless := (placeless.args object (by simp)).1
    refine .bind (keyPlaceless.compileAt p p' S t 1 _) fun k => ?_
    exact .bind (objectPlaceless.compileAt p p' S t 2 _) fun o => .pure _
  · exact .failAt

theorem zoom_sameResult : SameResult (zoom f ⟨p, S, t⟩) (zoom f ⟨p', S, t⟩) := by
  unfold zoom
  split
  · exact .pure _
  · exact .failAt

theorem access_sameResult : SameResult (access f ⟨p, S, t⟩) (access f ⟨p', S, t⟩) := by
  unfold access
  split
  · exact .failAt
  · split
    · exact .pure _
    · exact .failAt

theorem needleAndHaystack_sameResult {needle haystack : Operand ν} (needles : needle.Placeless)
    (haystacks : haystack.Placeless) : SameResult (needleAndHaystack ⟨p, S, t⟩ needle haystack)
      (needleAndHaystack ⟨p', S, t⟩ needle haystack) := by
  refine .bind (.both (needles.compileAt p p' S t 1 _) (haystacks.compileAt p p' S t 2 _)) ?_
  intro pair
  dsimp only
  split
  · exact .pure _
  · exact .failAt

theorem indexOf_sameResult (placeless : f.Placeless) :
    SameResult (indexOf f ⟨p, S, t⟩) (indexOf f ⟨p', S, t⟩) := by
  obtain ⟨name, args, constant⟩ := f
  rcases args with _ | ⟨needle, _ | ⟨haystack, _ | ⟨start, _ | ⟨fourth, rest⟩⟩⟩⟩
  · exact .failAt
  · exact .failAt
  · have needles := (placeless.args needle (by simp)).1
    have haystacks := (placeless.args haystack (by simp)).1
    exact .bind (needleAndHaystack_sameResult needles haystacks) fun both => .pure _
  · have needles := (placeless.args needle (by simp)).1
    have haystacks := (placeless.args haystack (by simp)).1
    have startPlaceless := (placeless.args start (by simp)).1
    refine .bind (needleAndHaystack_sameResult needles haystacks) fun both => ?_
    exact .bind (startPlaceless.compileAt p p' S t 3 _) fun s => .pure _
  · exact .failAt

theorem comparisonOperand_sameResult {o : Operand ν} (placeless : o.Placeless) (c : Comparison)
    (position : Nat) : SameResult (comparisonOperand c ⟨p, S, t⟩ position o)
      (comparisonOperand c ⟨p', S, t⟩ position o) := by
  refine .bind (placeless.compileAt p p' S t position _) fun e => ?_
  split
  · exact .pure _
  · exact .failAt

theorem comparisonOperands_sameResult {lhs rhs : Operand ν} (lhsPlaceless : lhs.Placeless)
    (rhsPlaceless : rhs.Placeless) (c : Comparison) :
    SameResult (comparisonOperands c ⟨p, S, t⟩ lhs rhs)
      (comparisonOperands c ⟨p', S, t⟩ lhs rhs) := by
  refine .bind (comparisonOperand_sameResult lhsPlaceless c 1) fun l => ?_
  refine .bind (comparisonOperand_sameResult rhsPlaceless c 2) fun r => ?_
  split
  · exact .pure _
  · exact .failAt

theorem compare_sameResult (placeless : f.Placeless) :
    SameResult (compare f ⟨p, S, t⟩) (compare f ⟨p', S, t⟩) := by
  obtain ⟨name, args, constant⟩ := f
  simp only [compare]
  cases Comparison.ofSymbol? name with
  | none => exact .failAt
  | some c =>
    rcases args with _ | ⟨lhs, _ | ⟨rhs, _ | ⟨through, _ | ⟨fourth, rest⟩⟩⟩⟩
    · exact .failAt
    · exact .failAt
    · have lefts := (placeless.args lhs (by simp)).1
      have rights := (placeless.args rhs (by simp)).1
      exact .bind (comparisonOperands_sameResult lefts rights c) fun both => .pure _
    · have lefts := (placeless.args lhs (by simp)).1
      have rights := (placeless.args rhs (by simp)).1
      have throughPlaceless := (placeless.args through (by simp)).1
      refine .bind (comparisonOperands_sameResult lefts rights c) fun both => ?_
      split
      · exact .bind (throughPlaceless.compileAt p p' S t 3 _) fun k => .pure _
      · exact .failAt
    · exact .failAt

theorem flag_placeless (placeless : f.Placeless) {o : Operand ν}
    (members : ∀ m ∈ o.members, m.2.Placeless) (key : String) :
    (flag f o.members key).Placeless := by
  unfold flag
  cases found : o.members.lookup key with
  | none => exact placeless.constant false
  | some option => exact members _ (mem_of_lookup found)

theorem collator_sameResult (placeless : f.Placeless) :
    SameResult (collator f ⟨p, S, t⟩) (collator f ⟨p', S, t⟩) := by
  unfold collator
  split
  · rename_i o given
    obtain ⟨_, members⟩ := placeless.args o (by simp [given])
    split
    · have case := flag_placeless placeless members "case-sensitive"
      have diacritic := flag_placeless placeless members "diacritic-sensitive"
      refine .bind (case.compileAt p p' S t 1 _) fun c => ?_
      refine .bind (diacritic.compileAt p p' S t 1 _) fun d => ?_
      split
      · exact .pure _
      · rename_i locale found
        split
        · exact .pure _
        · have localePlaceless := members _ (mem_of_lookup found)
          exact .bind (localePlaceless.compileAt p p' S t 1 _) fun l => .pure _
    · exact .failAt
  · exact .failAt

theorem resolvedLocale_sameResult (placeless : f.Placeless) :
    SameResult (resolvedLocale f ⟨p, S, t⟩) (resolvedLocale f ⟨p', S, t⟩) := by
  unfold resolvedLocale
  split
  · rename_i o given
    have collatorPlaceless := (placeless.args o (by simp [given])).1
    exact .bind (collatorPlaceless.compileAt p p' S t 1 _) fun c => .pure _
  · exact .failAt

theorem compileAll_sameResult {args : List (Operand ν)} (placeless : ∀ o ∈ args, o.Placeless)
    (u : Option Ty) (position : Nat) :
    SameResult (Operand.compileAll ⟨p, S, t⟩ u position args)
      (Operand.compileAll ⟨p', S, t⟩ u position args) := by
  induction args generalizing position with
  | nil => exact .pure _
  | cons o rest ih =>
    have first := placeless o (by simp)
    have later := ih (fun o mem => placeless o (by simp [mem])) (position + 1)
    refine .bind (first.compileAt p p' S t position u) fun e => ?_
    exact .bind later fun es => .pure _

theorem assertion_sameResult {args : List (Operand ν)} (placeless : ∀ o ∈ args, o.Placeless)
    (u : Ty) (position : Nat) : SameResult (assertion ⟨p, S, t⟩ u position args)
      (assertion ⟨p', S, t⟩ u position args) :=
  .bind (compileAll_sameResult placeless _ position) fun _ => .pure _

theorem assertArray_sameResult {args : List (Operand ν)} (placeless : ∀ o ∈ args, o.Placeless) :
    SameResult (assertArray ⟨p, S, t⟩ args) (assertArray ⟨p', S, t⟩ args) := by
  unfold assertArray
  split
  · split
    · exact .failAt
    · split
      · exact .failAt
      · exact assertion_sameResult
          (fun o mem => placeless o (List.mem_cons_of_mem _ (List.mem_cons_of_mem _ mem))) _ 3
  · split
    · exact .failAt
    · exact assertion_sameResult (fun o mem => placeless o (List.mem_cons_of_mem _ mem)) _ 2
  · exact assertion_sameResult placeless _ 1

theorem assert_sameResult (placeless : f.Placeless) :
    SameResult (assert f ⟨p, S, t⟩) (assert f ⟨p', S, t⟩) := by
  have args := fun o mem => (placeless.args o mem).1
  unfold assert
  split
  · exact .failAt
  · split
    · exact assertion_sameResult args _ 1
    · exact assertArray_sameResult args

theorem stops_sameResult [Scalar ν] : (position : Nat) → (last : Option ν) → (u : Option Ty) →
    (args : List (Operand ν)) → (∀ o ∈ args, o.Placeless) →
    SameResult (stops ⟨p, S, t⟩ position last u args) (stops ⟨p', S, t⟩ position last u args)
  | _, _, _, [], _ => .pure _
  | _, _, _, [_], _ => .pure _
  | position, last, u, label :: output :: rest, placeless => by
    have outputPlaceless := placeless output (by simp)
    have later := fun x v => stops_sameResult (position + 2) x v rest
      fun o mem => placeless o (by simp [mem])
    unfold stops
    split
    · exact .failAt
    · split
      · exact .failAt
      · refine .bind (outputPlaceless.compileAt p p' S t (position + 1) u) fun e => ?_
        exact .bind (later _ _) fun more => .pure _

theorem interpolate_sameResult [Scalar ν] (placeless : f.Placeless) :
    SameResult (interpolate f ⟨p, S, t⟩) (interpolate f ⟨p', S, t⟩) := by
  unfold interpolate
  split
  · exact .failAt
  · split
    · exact .failAt
    · split
      · exact .failAt
      · split
        · rename_i curve input pairs given
          have inputPlaceless := (placeless.args input (by simp [given])).1
          refine .bind (inputPlaceless.compileAt p p' S t 2 _) fun e => ?_
          refine .bind (stops_sameResult 3 none _ pairs fun o mem => ?_) fun read => ?_
          · exact (placeless.args o (by simp [given, mem])).1
          · dsimp only
            split
            · exact .pure _
            · exact .failAt
        · exact .failAt

end Operator

theorem Builtin.parse_sameResult [Scalar ν] (b : Builtin) {f : Form ν} (placeless : f.Placeless)
    (p p' : List Nat) (S : Scope ν) (t : Option Ty) :
    SameResult (b.parse f ⟨p, S, t⟩) (b.parse f ⟨p', S, t⟩) := by
  cases b with
  | literal => exact Operator.literal_sameResult
  | var => exact Operator.var_sameResult
  | letIn => exact Operator.letIn_sameResult placeless
  | indexOf => exact Operator.indexOf_sameResult placeless
  | get => exact Operator.get_sameResult placeless
  | zoom => exact Operator.zoom_sameResult
  | access => exact Operator.access_sameResult
  | collator => exact Operator.collator_sameResult placeless
  | resolvedLocale => exact Operator.resolvedLocale_sameResult placeless
  | compare => exact Operator.compare_sameResult placeless
  | assert => exact Operator.assert_sameResult placeless
  | interpolate => exact Operator.interpolate_sameResult placeless

/-! ## Documents -/

section Finishing

variable [Platform ν] {p p' : List Nat} {S : Scope ν} {t : Option Ty}

omit [Platform ν] in
theorem annotate_sameResult (expected : Ty) (e : Expr ν) :
    SameResult (annotate ⟨p, S, t⟩ expected e) (annotate ⟨p', S, t⟩ expected e) := by
  unfold annotate
  split
  · exact .pure _
  · split
    · exact .pure _
    · split
      · exact .pure _
      · exact .failAt

theorem foldConstant_sameResult (e : Expr ν) :
    SameResult (foldConstant ⟨p, S, t⟩ e) (foldConstant ⟨p', S, t⟩ e) := by
  unfold foldConstant
  split
  · split
    · exact .pure _
    · exact .failAt
  · exact .pure _

end Finishing

namespace Compiler

variable [Platform ν] {r : Registry ν}

theorem apply_sameResult (standard : r.IsStandard) {f : Form ν} (placeless : f.Placeless)
    (p p' : List Nat) (S : Scope ν) (t : Option Ty) :
    SameResult ((ofRegistry r).apply f ⟨p, S, t⟩) ((ofRegistry r).apply f ⟨p', S, t⟩) := by
  unfold apply
  split
  · exact .failAt
  · rename_i parse isParse
    obtain ⟨b, rfl⟩ := standard.eq_parse isParse
    refine .bind (b.parse_sameResult placeless p p' S t) fun e => ?_
    cases t with
    | none => exact foldConstant_sameResult e
    | some expected => exact .bind (annotate_sameResult expected e) foldConstant_sameResult

theorem scalar_placeless (standard : r.IsStandard) (j : Json ν) :
    ((ofRegistry r).scalar j).Placeless := by
  intro p p' S t
  have quoted (k : Json ν) : (quoted k).Placeless := fun _ _ _ _ _ _ => rfl
  refine apply_sameResult standard ⟨fun o mem => ?_, fun b => quoted _⟩ p p' S t
  obtain rfl := List.mem_singleton.mp mem
  exact ⟨quoted j, nofun⟩

theorem form_placeless (standard : r.IsStandard) {operands : List (Operand ν)}
    (placeless : ∀ o ∈ operands, o.Placeless ∧ ∀ m ∈ o.members, m.2.Placeless) (p p' : List Nat)
    (S : Scope ν) (t : Option Ty) : SameResult ((ofRegistry r).form operands ⟨p, S, t⟩)
      ((ofRegistry r).form operands ⟨p', S, t⟩) := by
  cases operands with
  | nil => exact .failAt
  | cons head args =>
    simp only [form]
    split
    · refine apply_sameResult standard ⟨fun o mem => ?_, fun b => ?_⟩ p p' S t
      · exact placeless o (List.mem_cons_of_mem _ mem)
      · exact scalar_placeless standard _
    · exact .failAt

mutual

theorem operand_placeless (standard : r.IsStandard) : (j : Json ν) →
    ((ofRegistry r).operand j).Placeless ∧
      ∀ m ∈ ((ofRegistry r).operand j).members, m.2.Placeless
  | .arr items =>
    ⟨form_placeless standard (operands_placeless standard items), nofun⟩
  | .obj members => ⟨fun _ _ _ _ => .failAt, memberOperands_placeless standard members⟩
  | .null | .bool _ | .int _ | .float _ | .str _ => ⟨scalar_placeless standard _, nofun⟩
termination_by structural j => j

theorem operands_placeless (standard : r.IsStandard) : (js : List (Json ν)) →
    ∀ o ∈ (ofRegistry r).operands js, o.Placeless ∧ ∀ m ∈ o.members, m.2.Placeless
  | [] => nofun
  | j :: rest => by
    intro o mem
    rcases List.mem_cons.mp mem with first | later
    · subst first
      exact operand_placeless standard j
    · exact operands_placeless standard rest o later
termination_by structural js => js

theorem memberOperands_placeless (standard : r.IsStandard) : (ms : List (String × Json ν)) →
    ∀ m ∈ (ofRegistry r).memberOperands ms, m.2.Placeless
  | [] => nofun
  | (k, j) :: rest => by
    intro m mem
    rcases List.mem_cons.mp mem with first | later
    · subst first
      exact (operand_placeless standard j).1
    · exact memberOperands_placeless standard rest m later
termination_by structural ms => ms

end

/-- A document compiles to one expression or none for a scope and an expected type, wherever it
stands. -/
theorem compile_sameResult (standard : r.IsStandard) (j : Json ν) (p p' : List Nat) (S : Scope ν)
    (t : Option Ty) : SameResult ((ofRegistry r).compile j ⟨p, S, t⟩)
      ((ofRegistry r).compile j ⟨p', S, t⟩) :=
  (operand_placeless standard j).1 p p' S t

theorem compile_result?_eq_some_iff (standard : r.IsStandard) {j : Json ν} {site : Site ν}
    {ds : List Diagnostic} {e : Expr ν} : ((ofRegistry r).compile j site).result? ds = some e ↔
      (ofRegistry r).Yields j site.scope site.expected e := by
  constructor
  · intro compiled
    obtain ⟨after, done⟩ := Compiling.result?_eq_some.mp compiled
    exact ⟨site.path, ds, after, done⟩
  · intro yields
    obtain ⟨path, before, after, done⟩ := yields
    rw [compile_sameResult standard j site.path path site.scope site.expected ds before]
    exact Compiling.result?_eq_some.mpr ⟨after, done⟩

theorem Yields.unique (standard : r.IsStandard) {j : Json ν} {S : Scope ν} {t : Option Ty}
    {e e' : Expr ν} (yields : (ofRegistry r).Yields j S t e)
    (yields' : (ofRegistry r).Yields j S t e') : e = e' := by
  have result {x : Expr ν} (yields : (ofRegistry r).Yields j S t x) :
      ((ofRegistry r).compile j ⟨[], S, t⟩).result? [] = some x :=
    (compile_result?_eq_some_iff standard).mpr yields
  exact Option.some.inj ((result yields).symm.trans (result yields'))

end Compiler

end MapStyle
