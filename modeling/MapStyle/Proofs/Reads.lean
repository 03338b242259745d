import MapStyle.Collation.Engine
import MapStyle.Expr.Eval

/-!
# What an evaluation reads

Two contexts that agree on what an expression reads give it the same outcome.  A variable has no
children, so the induction goes into what it is bound to; a `let` passes on what its bindings read
although only its body is evaluated.
-/

set_option autoImplicit false

namespace MapStyle

variable {ν : Type}

/-- Two contexts agree on everything that is read. -/
structure Env.AgreeOn (r : Reads) (a b : Env ν) : Prop where
  zoom : r.zoom = true → a.globals.zoom = b.globals.zoom
  feature : r.feature = true → a.feature = b.feature
  heatmapDensity : r.heatmapDensity = true → a.globals.heatmapDensity = b.globals.heatmapDensity

namespace Env.AgreeOn

variable {r s : Reads} {a b : Env ν}

theorem left (h : AgreeOn (r.union s) a b) : AgreeOn r a b := by
  refine ⟨fun reads => h.zoom ?_, fun reads => h.feature ?_, fun reads => h.heatmapDensity ?_⟩
  all_goals simp [Reads.union, reads]

theorem right (h : AgreeOn (r.union s) a b) : AgreeOn s a b := by
  refine ⟨fun reads => h.zoom ?_, fun reads => h.feature ?_, fun reads => h.heatmapDensity ?_⟩
  all_goals simp [Reads.union, reads]

theorem none (a b : Env ν) : AgreeOn Reads.none a b := by
  constructor <;> intro reads <;> cases reads

end Env.AgreeOn

namespace Reads

theorem union_assoc (r s t : Reads) : (r.union s).union t = r.union (s.union t) := by
  simp [union, Bool.or_assoc]

@[simp] theorem none_union (r : Reads) : none.union r = r := by
  simp [union, none]

@[simp] theorem union_none (r : Reads) : r.union none = r := by
  simp [union, none]

end Reads

namespace Expr

/-! ## Reading as a union over the tree -/

def readsFrom (acc : Reads) (es : List (Expr ν)) : Reads :=
  es.foldl (fun acc e => acc.union e.subtreeReads) acc

theorem readsFrom_eq (acc : Reads) (es : List (Expr ν)) :
    readsFrom acc es = acc.union (allRead es) := by
  induction es generalizing acc with
  | nil => simp [readsFrom, allRead]
  | cons e es ih =>
    have step : readsFrom acc (e :: es) = readsFrom (acc.union e.subtreeReads) es := rfl
    rw [step, ih, allRead, Reads.union_assoc]

theorem bindingsRead_eq (bs : List (String × Expr ν)) :
    bindingsRead bs = allRead (bs.map (·.2)) := by
  induction bs with
  | nil => rfl
  | cons b bs ih => simp [bindingsRead, allRead, ih]

theorem stopsRead_eq (ss : List (ν × Expr ν)) : stopsRead ss = allRead (ss.map (·.2)) := by
  induction ss with
  | nil => rfl
  | cons s ss ih => simp [stopsRead, allRead, ih]

theorem optionReads_eq (e : Option (Expr ν)) : optionReads e = allRead e.toList := by
  cases e <;> simp [optionReads, allRead]

theorem allRead_append (xs ys : List (Expr ν)) :
    allRead (xs ++ ys) = (allRead xs).union (allRead ys) := by
  induction xs with
  | nil => simp [allRead]
  | cons x xs ih => simp [allRead, ih, Reads.union_assoc]

theorem subtreeReads_eq_readsFrom (e : Expr ν) : e.subtreeReads = readsFrom e.reads e.children := by
  rw [readsFrom_eq]
  cases e with
  | literal v t => rfl
  | var name bound => simp [subtreeReads, reads, children, allRead]
  | letIn bindings body =>
    simp [subtreeReads, reads, children, bindingsRead_eq, allRead_append, allRead]
  | indexOf needle haystack start =>
    simp [subtreeReads, reads, children, optionReads_eq, allRead, Reads.union_assoc]
  | get key object => cases object <;> simp [subtreeReads, reads, children, allRead]
  | zoom => rfl
  | access a => simp [subtreeReads, reads, children, allRead]
  | collator case diacritic locale =>
    simp [subtreeReads, reads, children, optionReads_eq, allRead, Reads.union_assoc]
  | resolvedLocale c => simp [subtreeReads, reads, children, allRead]
  | compare c lhs rhs through =>
    simp [subtreeReads, reads, children, optionReads_eq, allRead, Reads.union_assoc]
  | assertion t args => simp [subtreeReads, reads, children]
  | coercion t arg => simp [subtreeReads, reads, children, allRead]
  | interpolate t curve space input stops =>
    simp [subtreeReads, reads, children, stopsRead_eq, allRead]

/-! ## The outcome depends on nothing else -/

variable [Platform ν] {a b : Env ν}

theorem read_eq_of_agreeOn (x : Accessor) (agree : Env.AgreeOn x.reads a b) :
    x.read a = x.read b := by
  cases x with
  | id => simp only [Accessor.read, agree.feature rfl]
  | geometryType => simp only [Accessor.read, agree.feature rfl]
  | heatmapDensity => simp only [Accessor.read, agree.heatmapDensity rfl]

mutual

/-- An expression has one outcome in all contexts that agree on what it reads. -/
theorem eval_eq_of_agreeOn : (e : Expr ν) → Env.AgreeOn e.subtreeReads a b → e.eval a = e.eval b
  | .literal _ _, _ => rfl
  | .var _ bound, agree => by
    rw [eval, eval, eval_eq_of_agreeOn bound agree]
  | .letIn _ body, agree => by
    rw [eval, eval, eval_eq_of_agreeOn body agree.right]
  | .indexOf needle haystack start, agree => by
    rw [eval, eval, eval_eq_of_agreeOn needle agree.left.left,
      eval_eq_of_agreeOn haystack agree.left.right, evalOption_eq_of_agreeOn start agree.right]
  | .get key none, agree => by
    have sameFeature : a.feature = b.feature := agree.feature rfl
    simp only [eval, eval_eq_of_agreeOn key agree.right, Env.property?, sameFeature]
  | .get key (some object), agree => by
    simp only [eval, eval_eq_of_agreeOn key agree.left, eval_eq_of_agreeOn object agree.right]
  | .zoom, agree => by
    simp only [eval, agree.zoom rfl]
  | .access x, agree => by
    rw [eval, eval, read_eq_of_agreeOn x agree]
  | .collator case diacritic locale, agree => by
    rw [eval, eval, eval_eq_of_agreeOn case agree.left.left,
      eval_eq_of_agreeOn diacritic agree.left.right, evalOption_eq_of_agreeOn locale agree.right]
  | .resolvedLocale c, agree => by
    rw [eval, eval, eval_eq_of_agreeOn c agree]
  | .compare c lhs rhs through, agree => by
    rw [eval, eval, eval_eq_of_agreeOn lhs agree.left.left, eval_eq_of_agreeOn rhs agree.left.right,
      evalThrough_eq_of_agreeOn through agree.right]
  | .assertion t args, agree => by
    rw [eval, eval, evalAssertion_eq_of_agreeOn t .null args agree]
  | .coercion t arg, agree => by
    rw [eval, eval, eval_eq_of_agreeOn arg agree]
  | .interpolate t curve space input stops, agree => by
    have sameOutput : evalOutput a stops = evalOutput b stops :=
      funext fun i => evalOutput_eq_of_agreeOn stops i agree.right
    simp only [eval, eval_eq_of_agreeOn input agree.left, sameOutput]
termination_by structural e => e

theorem evalOption_eq_of_agreeOn : (e : Option (Expr ν)) → Env.AgreeOn (optionReads e) a b →
    evalOption a e = evalOption b e
  | none, _ => rfl
  | some e, agree => eval_eq_of_agreeOn e agree
termination_by structural e => e

theorem evalThrough_eq_of_agreeOn : (e : Option (Expr ν)) → Env.AgreeOn (optionReads e) a b →
    evalThrough a e = evalThrough b e
  | none, _ => rfl
  | some e, agree => congrArg some (eval_eq_of_agreeOn e agree)
termination_by structural e => e

theorem evalAssertion_eq_of_agreeOn (t last : Ty) : (es : List (Expr ν)) →
    Env.AgreeOn (allRead es) a b → evalAssertion a t last es = evalAssertion b t last es
  | [], _ => rfl
  | e :: es, agree => by
    rw [evalAssertion, evalAssertion, eval_eq_of_agreeOn e agree.left]
    cases e.eval b with
    | error err => rfl
    | ok v => simp only [evalAssertion_eq_of_agreeOn t v.ty es agree.right]
termination_by structural es => es

theorem evalOutput_eq_of_agreeOn : (ss : List (ν × Expr ν)) → (i : Nat) →
    Env.AgreeOn (stopsRead ss) a b → evalOutput a ss i = evalOutput b ss i
  | [], _, _ => rfl
  | (_, e) :: _, 0, agree => eval_eq_of_agreeOn e agree.left
  | (_, _) :: rest, i + 1, agree => evalOutput_eq_of_agreeOn rest i agree.right
termination_by structural ss => ss

end

theorem eval_eq_of_isConstant {e : Expr ν} (constant : e.isConstant = true) (a b : Env ν) :
    e.eval a = e.eval b := by
  have readsNothing : e.subtreeReads = .none := by simpa [isConstant] using constant
  exact e.eval_eq_of_agreeOn (readsNothing ▸ Env.AgreeOn.none a b)

/-- What an expression reads is the union over its tree, and two contexts that agree on it give one
outcome, a value or an error; so the zoom does not matter to an expression that does not depend on
it, and neither does the feature, whether it is there or not. -/
theorem subtreeReads_sound (e : Expr ν) :
    e.subtreeReads = readsFrom e.reads e.children ∧
    (∀ a b : Env ν, Env.AgreeOn e.subtreeReads a b → e.eval a = e.eval b) ∧
    (e.isZoomDependent = false → ∀ (env : Env ν) (zoom : Option ν),
      e.eval ⟨{ env.globals with zoom }, env.feature⟩ = e.eval env) ∧
    (e.isFeatureDependent = false → ∀ (env : Env ν) (feature : Option (Feature ν)),
      e.eval { env with feature } = e.eval env) := by
  refine ⟨e.subtreeReads_eq_readsFrom, fun a b => e.eval_eq_of_agreeOn, ?_, ?_⟩
  · intro independent env zoom
    apply e.eval_eq_of_agreeOn
    refine ⟨fun reads => ?_, fun _ => rfl, fun _ => rfl⟩
    exact absurd (independent.symm.trans reads) (by simp)
  · intro independent env feature
    apply e.eval_eq_of_agreeOn
    refine ⟨fun _ => rfl, fun reads => ?_, fun _ => rfl⟩
    exact absurd (independent.symm.trans reads) (by simp)

def ownName : Expr Float := .get (.literal (.string "name") .string) none

/-- The lookup below a binding reads the zoom too, although only its body is evaluated. -/
def ownNameBelowZoom : Expr Float := .letIn [("z", .zoom)] ownName

def dense : Env Float := ⟨⟨none, some 1⟩, none⟩

theorem ownNameBelowZoom_ignores_density :
    (Env.AgreeOn ownNameBelowZoom.subtreeReads dense .blank ∧
      ownNameBelowZoom.eval dense = ownNameBelowZoom.eval .blank) ∧
    (ownName.isZoomDependent = false ∧
      ownName.eval ⟨{ dense.globals with zoom := some 1 }, none⟩ = ownName.eval dense) ∧
    ((zoom : Expr Float).isFeatureDependent = false ∧
      zoom.eval { dense with feature := some default } = zoom.eval dense) := by
  have agree : Env.AgreeOn ownNameBelowZoom.subtreeReads dense .blank :=
    ⟨fun _ => rfl, fun _ => rfl, fun reads => absurd reads (by decide)⟩
  refine ⟨⟨agree, ?_⟩, ⟨by decide, ?_⟩, by decide, ?_⟩
  · exact ownNameBelowZoom.subtreeReads_sound.2.1 dense .blank agree
  · exact ownName.subtreeReads_sound.2.2.1 (by decide) dense (some 1)
  · exact zoom.subtreeReads_sound.2.2.2 (by decide) dense (some default)

end Expr

end MapStyle
