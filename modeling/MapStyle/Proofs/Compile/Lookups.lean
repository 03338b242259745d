import MapStyle.Proofs.Compile.Reporting
import MapStyle.Proofs.Interpolation.Bounds
import MapStyle.Proofs.Json.Numbers

/-!
# Look-ups of compiled expressions

The labels of an interpolation are read one after another, and each is a number above the one
before.  So in an expression that a document compiles to, no interpolation looks beyond its stops.
-/

set_option autoImplicit false

namespace MapStyle

variable {ν : Type} [Platform ν]

namespace Expr

/-- An expression is in another one: it is that one, or in a child of it or in what a name stands
for there. -/
inductive Inside : Expr ν → Expr ν → Prop
  | self (e : Expr ν) : Inside e e
  | child {part k e : Expr ν} : k ∈ e.children → Inside part k → Inside part e
  | bound {part bound : Expr ν} {name : String} : Inside part bound → Inside part (.var name bound)

/-- The stops of an interpolation, at ascending labels, are all that it looks up. -/
def LooksUpInBounds : Expr ν → Prop
  | .interpolate _ _ _ _ stops => InBounds (· < ·) stops
  | _ => True

def Bounded (e : Expr ν) : Prop := ∀ part : Expr ν, part.Inside e → part.LooksUpInBounds

theorem bounded_of_children {e : Expr ν} (notVar : ∀ name bound, e ≠ .var name bound)
    (own : e.LooksUpInBounds) (children : ∀ k ∈ e.children, k.Bounded) : e.Bounded := by
  intro part inside
  cases inside with
  | self => exact own
  | child mem inside => exact children _ mem part inside
  | bound => exact absurd rfl (notVar _ _)

theorem bounded_var {name : String} {bound : Expr ν} (bounded : bound.Bounded) :
    (Expr.var name bound).Bounded := by
  intro part inside
  cases inside with
  | self => trivial
  | child mem => cases mem
  | bound inside => exact bounded part inside

theorem Bounded.folded {e : Expr ν} (bounded : e.Bounded) : e.folded.Bounded := by
  have literal (v : Value ν) (t : Ty) : (Expr.literal v t).Bounded :=
    bounded_of_children nofun trivial nofun
  unfold Expr.folded
  split
  · split
    · exact literal _ _
    · exact bounded
  · exact bounded

end Expr

variable [Scalar.Ordered ν]

theorem LabelsRead.ascend {last : Option ν} {labels : List ν}
    (read : LabelsRead (fun x => (x == x) = true) last labels) :
    (∀ l ∈ labels, (l == l) = true) ∧ labels.Pairwise (· < ·) ∧
      ∀ l ∈ last, (l == l) = true → ∀ x ∈ labels, l < x := by
  induction read with
  | nil => exact ⟨nofun, .nil, nofun⟩
  | @cons last x labels number above _ ih =>
    obtain ⟨numbers, ascending, later⟩ := ih
    have next := later x rfl number
    refine ⟨List.forall_mem_cons.mpr ⟨number, numbers⟩,
      List.pairwise_cons.mpr ⟨next, ascending⟩, ?_⟩
    intro l isLast isNumber
    have lt : l < x := Scalar.lt_of_not_le (Scalar.le_of_beq isNumber) (Scalar.le_of_beq number)
      (above l isLast)
    refine List.forall_mem_cons.mpr ⟨lt, ?_⟩
    intro y mem
    exact Scalar.lt_trans lt (next y mem)

theorem Expr.looksUpInBounds_of_labels {e : Expr ν}
    (labels : ∀ t curve space input stops, e = .interpolate t curve space input stops →
      stops ≠ [] ∧ LabelsRead (fun x => (x == x) = true) none (stops.map (·.1))) :
    e.LooksUpInBounds := by
  cases e with
  | interpolate t curve space input stops =>
    obtain ⟨filled, read⟩ := labels t curve space input stops rfl
    obtain ⟨numbers, ascending, _⟩ := read.ascend
    exact inBounds_of_sorted (fun _ _ => Scalar.le_of_lt) filled numbers ascending
  | _ => trivial

/-- Expressions of a type whose interpolations look up their own stops, in documents of which every
number equals itself. -/
def Correspondence.bounded (ν : Type) [Platform ν] [Scalar.Ordered ν] : Correspondence Unit ν where
  toCongruence := .ofChildren (fun x => (x == x) = true) Expr.Bounded fun _ notVar _ labels =>
    Expr.bounded_of_children notVar (Expr.looksUpInBounds_of_labels labels)
  var _ bound := ⟨bound.1, Expr.bounded_var bound.2⟩
  letIn bindings body := by
    refine ⟨body.1, Expr.bounded_of_children nofun trivial ?_⟩
    intro k mem
    rcases List.mem_append.mp mem with mem | mem
    · obtain ⟨b, bMem, rfl⟩ := List.mem_map.mp mem
      obtain ⟨b', mem', rfl⟩ := List.mem_map.mp bMem
      obtain ⟨_, _, bounded⟩ := bindings b' mem'
      exact bounded
    · cases List.mem_singleton.mp mem
      exact body.2

theorem compileExpr_bounded {r : Registry ν} (standard : r.IsStandard) {j : Json ν}
    (free : j.NaNFree) {expected : Option Ty} {e : Expr ν}
    (compiled : compileExpr r j expected = .ok e) : e.Bounded := by
  have inStep : InStep (Judgement.reporting (¬ r.QuotesScalars))
      (Correspondence.bounded ν).toCongruence r fun _ => Compiler.ofRegistry r :=
    Compiler.inStep_reporting standard fun together =>
      ⟨(Expr.folded_alike _).ty.trans together.1, together.2.folded⟩
  have fit := Compiler.fitForms inStep Json.NaNFree.items Json.NaNFree.members
    fun free x read => free.number read
  have reports : ((Compiler.ofRegistry r).compile j (.root expected)).MayReport
      (¬ r.QuotesScalars) [] fun e => (Correspondence.bounded ν).Fits expected fun _ => e :=
    fit.compile_holds free (s := ()) .empty [] expected
  obtain ⟨t, ⟨_, bounded⟩, _⟩ := reports.of_toExcept compiled
  exact bounded

end MapStyle
