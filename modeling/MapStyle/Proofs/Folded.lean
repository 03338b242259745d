import MapStyle.Compile.Compiler
import MapStyle.Proofs.Alike

/-!
# Folding one expression

Folding either puts something alike in the place of an expression, or stops at one that it has to
evaluate and that has no value.
-/

set_option autoImplicit false

namespace MapStyle

variable {ν : Type} [Platform ν]

namespace Expr

/-- Whether an expression that folding evaluates has a value. -/
def passes (e : Expr ν) : Bool := !e.isFoldable || (e.eval .blank).isOk

def folded (e : Expr ν) : Expr ν :=
  if e.isFoldable then
    match e.eval .blank with
    | .ok v => .literal v e.ty
    | .error _ => e
  else e

omit [Platform ν] in
theorem isConstant_of_isFoldable {e : Expr ν} (foldable : e.isFoldable = true) :
    e.isConstant = true := by
  simp only [isFoldable, Bool.and_eq_true] at foldable
  exact foldable.2

theorem passes_iff (e : Expr ν) :
    e.passes = true ↔ (e.isFoldable = true → ∃ v, e.eval .blank = .ok v) := by
  cases outcome : e.eval .blank with
  | ok v => simp [passes, outcome, Except.isOk, Except.toBool]
  | error err => simp [passes, outcome, Except.isOk, Except.toBool]

/-- A literal has a value, so that it makes no difference that folding leaves it alone. -/
theorem passes_eq (e : Expr ν) :
    e.passes = (e.ty == .resolvedImage || !e.isConstant || (e.eval .blank).isOk) := by
  cases e with
  | literal v t => simp [passes, eval, Except.isOk, Except.toBool]
  | _ => simp [passes, isFoldable, literal?, bne, Bool.or_assoc]

theorem Alike.passes {e f : Expr ν} (alike : e.Alike f) : e.passes = f.passes := by
  simp only [passes_eq, isConstant, alike.ty, alike.reads, alike.eval]

theorem folded_alike (e : Expr ν) : e.folded.Alike e := by
  unfold folded
  split
  · rename_i foldable
    have constant := isConstant_of_isFoldable foldable
    have readsNothing : e.subtreeReads = .none := by simpa [isConstant] using constant
    split
    · rename_i v done
      refine ⟨rfl, readsNothing.symm, fun env => ?_⟩
      rw [eval, eval_eq_of_isConstant constant env .blank, done]
    · exact .refl e
  · exact .refl e

/-- What passes, reads nothing and has another type than that of images has a value, the same in
every context. -/
theorem eval_folded_of_isConstant {e : Expr ν} (passes : e.passes = true)
    (constant : e.isConstant = true) (notImage : e.ty ≠ .resolvedImage) :
    ∃ v, ∀ env, e.folded.eval env = .ok v := by
  simp only [passes_eq, constant, Bool.not_true, Bool.or_false, Bool.or_eq_true, beq_iff_eq,
    notImage, false_or] at passes
  cases done : e.eval .blank with
  | error err => simp [done, Except.isOk, Except.toBool] at passes
  | ok v =>
    refine ⟨v, fun env => ?_⟩
    rw [e.folded_alike.eval env, eval_eq_of_isConstant constant env .blank, done]

end Expr

theorem foldConstant_of_passes (site : Site ν) {e : Expr ν} (passes : e.passes = true) :
    foldConstant site e = pure e.folded := by
  by_cases foldable : e.isFoldable = true
  · obtain ⟨v, done⟩ := e.passes_iff.mp passes foldable
    simp only [foldConstant, Expr.folded, foldable, done, if_true]
  · simp only [foldConstant, Expr.folded, foldable]
    rfl

theorem foldConstant_of_not_passes (site : Site ν) {e : Expr ν} (stops : ¬ e.passes = true) :
    ∃ err, foldConstant site e = site.fail (.evaluation err) := by
  have foldable : e.isFoldable = true := by
    cases foldable : e.isFoldable with
    | true => rfl
    | false => simp [Expr.passes, foldable] at stops
  cases outcome : e.eval .blank with
  | ok v => exact absurd (e.passes_iff.mpr fun _ => ⟨v, outcome⟩) stops
  | error err => exact ⟨err, by simp only [foldConstant, foldable, outcome, if_true]⟩

end MapStyle
