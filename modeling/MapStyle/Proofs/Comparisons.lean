import MapStyle.Compile.Operators.Compare
import MapStyle.Proofs.Folded
import MapStyle.Proofs.Typing
import MapStyle.Proofs.Value.Equality

/-!
# Laws of comparisons

The six comparisons of two operands answer by one order, or fail.  So the operand that is compared
with the other one may be exchanged with it, if the comparison is turned around too; being different
is not being equal; and what has a place in an order is below, equal or above.
-/

set_option autoImplicit false

namespace MapStyle

variable {ν : Type}

section Values

variable [Scalar ν]

/-! ## Orders and comparisons -/

namespace Comparison

def converse : Comparison → Comparison
  | .eq => .eq
  | .ne => .ne
  | .lt => .gt
  | .le => .ge
  | .gt => .lt
  | .ge => .le

theorem converse_converse (c : Comparison) : c.converse.converse = c := by
  cases c <;> rfl

@[simp] theorem isOrder_converse (c : Comparison) : c.converse.isOrder = c.isOrder := by
  cases c <;> rfl

theorem supports_converse (c : Comparison) (t : Ty) : c.converse.supports t = c.supports t := by
  cases t <;> simp [supports]

theorem holds_converse (c : Comparison) (o : Ordering) : c.converse.holds o.swap = c.holds o := by
  cases c <;> cases o <;> rfl

theorem holds_ne (o : Ordering) : ne.holds o = !eq.holds o := by
  cases o <;> rfl

/-- Of two things in an order exactly one of below, equal and above is true, and at most is below
or equal. -/
theorem holds_exactly_one (o : Ordering) :
    [lt.holds o, eq.holds o, gt.holds o].count true = 1 ∧
      le.holds o = (lt.holds o || eq.holds o) := by
  cases o <;> decide

end Comparison

section Ordered

variable [Scalar.Ordered ν]

theorem Scalar.compare?_swap (x y : ν) :
    Scalar.compare? y x = (Scalar.compare? x y).map Ordering.swap := by
  have back : x < y → ¬ y < x := fun lt gt => Scalar.lt_irrefl x (Scalar.lt_trans lt gt)
  have apart : x < y → (x == y) = false := fun lt => by
    refine Bool.eq_false_iff.mpr fun same => ?_
    exact Scalar.not_le_of_lt lt (Scalar.le_of_beq (Scalar.beq_symm same))
  have apart' : y < x → (x == y) = false := fun gt => by
    refine Bool.eq_false_iff.mpr fun same => ?_
    exact Scalar.not_le_of_lt gt (Scalar.le_of_beq same)
  unfold Scalar.compare?
  rw [Scalar.beq_comm y x]
  by_cases lt : x < y
  · simp [lt, back lt, apart lt]
  · by_cases gt : y < x
    · simp [lt, gt, apart' gt]
    · simp only [lt, gt, if_false]
      split <;> rfl

theorem Scalar.exists_compare? {x y : ν} (xNumber : (x == x) = true) (yNumber : (y == y) = true) :
    ∃ o, Scalar.compare? x y = some o := by
  unfold Scalar.compare?
  by_cases lt : x < y
  · exact ⟨.lt, if_pos lt⟩
  by_cases same : (x == y) = true
  · exact ⟨.eq, by rw [if_neg lt, if_pos same]⟩
  have notLe : ¬ x ≤ y := by
    intro le
    by_cases ge : y ≤ x
    · exact same ((Scalar.Ordered.beq_iff x y).mpr ⟨le, ge⟩)
    · exact lt ((Scalar.Ordered.lt_iff x y).mpr ⟨le, ge⟩)
  have gt : y < x :=
    Scalar.lt_of_not_le (Scalar.le_of_beq yNumber) (Scalar.le_of_beq xNumber) notLe
  exact ⟨.gt, by rw [if_neg lt, if_neg same, if_pos gt]⟩

end Ordered

/-! ## Two values -/

/-- How two values meet in a comparison: as numbers, as texts, or for equality only. -/
inductive Meeting : Value ν → Value ν → Prop
  | numbers (x y : ν) : Meeting (.number x) (.number y)
  | texts (s t : String) : Meeting (.string s) (.string t)
  | others {a b : Value ν} : (∀ x y, a = .number x → b ≠ .number y) →
    (∀ s t, a = .string s → b ≠ .string t) → Meeting a b

omit [Scalar ν] in
theorem meeting (a b : Value ν) : Meeting a b := by
  cases a with
  | number x =>
    cases b with
    | number y => exact .numbers x y
    | _ => exact .others (by simp) (by simp)
  | string s =>
    cases b with
    | string t => exact .texts s t
    | _ => exact .others (by simp) (by simp)
  | _ => exact .others (by simp) (by simp)

/-- Two texts, or two numbers of which none is a value that is no number. -/
inductive Ranked : Value ν → Value ν → Prop
  | numbers {x y : ν} : (x == x) = true → (y == y) = true → Ranked (.number x) (.number y)
  | texts (s t : String) : Ranked (.string s) (.string t)

namespace Comparison

variable {a b : Value ν}

theorem order?_of_others (c : Comparison) (notNumbers : ∀ x y, a = .number x → b ≠ .number y)
    (notTexts : ∀ s t, a = .string s → b ≠ .string t) :
    c.order? a b = if c.isOrder then none else some (if a == b then .eq else .lt) := by
  unfold order?
  split
  · exact absurd rfl (notNumbers _ _ rfl)
  · exact absurd rfl (notTexts _ _ rfl)
  · rfl

theorem apply_ne (a b : Value ν) : ne.apply a b = !eq.apply a b := by
  have same : ne.order? a b = eq.order? a b := by
    unfold order?
    split <;> rfl
  unfold apply
  rw [same]
  cases eq.order? a b with
  | none => rfl
  | some o => exact holds_ne o

theorem apply_converse [Scalar.Ordered ν] (c : Comparison) (a b : Value ν) :
    c.converse.apply b a = c.apply a b := by
  cases meeting a b with
  | numbers x y =>
    have back : c.converse.order? (.number y) (.number x) =
        (c.order? (.number x) (.number y)).map Ordering.swap := Scalar.compare?_swap x y
    unfold apply
    rw [back]
    cases c.order? (.number x) (.number y) with
    | none => cases c <;> rfl
    | some o => exact holds_converse c o
  | texts s t =>
    have swapped : compare t s = (compare s t).swap := Std.OrientedCmp.eq_swap
    show c.converse.holds (compare t s) = c.holds (compare s t)
    rw [swapped]
    exact holds_converse c _
  | others notNumbers notTexts =>
    have back := order?_of_others c.converse (fun x y isB isA => notNumbers y x isA isB)
      (fun s t isB isA => notTexts t s isA isB)
    unfold apply
    rw [order?_of_others c notNumbers notTexts, back, Value.beq_comm b a, isOrder_converse]
    cases c <;> cases a == b <;> rfl

/-! ## Two values and a collator -/

/-- Both of two outcomes are errors, or both are answers that are related. -/
inductive Agree (R : Bool → Bool → Prop) : Outcome ν → Outcome ν → Prop
  | failed {e e' : EvalError} : Agree R (.error e) (.error e')
  | answered {x y : Bool} : R x y → Agree R (.ok (.boolean x)) (.ok (.boolean y))

omit [Scalar ν] in
theorem Agree.isOk_eq {R : Bool → Bool → Prop} {o o' : Outcome ν} (agree : Agree R o o') :
    o.isOk = o'.isOk := by
  cases agree <;> rfl

theorem conclude_of_not_texts (c : Comparison) (through : Option (Outcome ν))
    (notTexts : ∀ s t, a = .string s → b ≠ .string t) :
    c.conclude a b through = .ok (.boolean (c.apply a b)) := by
  unfold conclude
  split
  · exact absurd rfl (notTexts _ _ rfl)
  · exact absurd rfl (notTexts _ _ rfl)
  · rfl

theorem conclude_ne (a b : Value ν) (through : Option (Outcome ν)) :
    Agree (fun x y => x = !y) (ne.conclude a b through) (eq.conclude a b through) := by
  unfold conclude
  split
  · exact .failed
  · rename_i k s t
    cases k with
    | collator k => exact .answered (holds_ne _)
    | _ => exact .failed
  · exact .answered (apply_ne _ _)

/-- Through a collator a comparison of texts is turned around with them, if the collator puts any
two texts in opposite orders when they are exchanged. -/
theorem conclude_converse [Scalar.Ordered ν] (c : Comparison) (a b : Value ν)
    {through : Option (Outcome ν)} (oriented : ∀ k, through = some (.ok (.collator k)) →
      Std.OrientedCmp k.engine.compare) :
    Agree (· = ·) (c.converse.conclude b a through) (c.conclude a b through) := by
  cases meeting a b with
  | texts s t =>
    rcases through with _ | ⟨e | k⟩
    · exact .answered (apply_converse c (.string s) (.string t))
    · exact .failed
    · cases k with
      | collator k =>
        have := oriented k rfl
        have swapped : k.engine.compare t s = (k.engine.compare s t).swap :=
          Std.OrientedCmp.eq_swap
        refine .answered ?_
        rw [swapped]
        exact holds_converse c _
      | _ => exact .failed
  | numbers x y =>
    rw [conclude_of_not_texts c through (by simp), conclude_of_not_texts _ through (by simp)]
    exact .answered (apply_converse c _ _)
  | others _ notTexts =>
    have back := conclude_of_not_texts c.converse through
      fun s t isB isA => notTexts t s isA isB
    rw [conclude_of_not_texts c through notTexts, back]
    exact .answered (apply_converse c _ _)

/-- All comparisons of two ranked values answer by one order. -/
theorem exists_order_of_ranked [Scalar.Ordered ν] (ranked : Ranked a b)
    (through : Option (Outcome ν)) : ∃ o : Ordering, ∀ (c : Comparison) (v : Value ν),
      c.conclude a b through = .ok v → v = .boolean (c.holds o) := by
  cases ranked with
  | @numbers x y xNumber yNumber =>
    obtain ⟨o, order⟩ := Scalar.exists_compare? xNumber yNumber
    refine ⟨o, fun c v concluded => ?_⟩
    rw [conclude_of_not_texts c through (by simp)] at concluded
    have applied : c.apply (.number x) (.number y) = c.holds o := by
      simp only [apply, order?, order]
    rw [← Except.ok.inj concluded, applied]
  | texts s t =>
    rcases through with _ | ⟨e | k⟩
    · exact ⟨compare s t, fun c v concluded => (Except.ok.inj concluded).symm⟩
    · exact ⟨.eq, fun c v concluded => nomatch concluded⟩
    · cases k with
      | collator k =>
        exact ⟨k.engine.compare s t, fun c v concluded => (Except.ok.inj concluded).symm⟩
      | _ => exact ⟨.eq, fun c v concluded => nomatch concluded⟩

end Comparison

end Values

/-! ## Nodes -/

variable [Platform ν]

/-- Only types of one kind are in order, and a text or a number has the kind of no other type. -/
theorem Ty.areOrdered_comm (t u : Ty) : t.areOrdered u = u.areOrdered t := by
  have turned (t u : Ty) (ordered : t.areOrdered u = true) : u.areOrdered t = true := by
    simp only [areOrdered, Bool.and_eq_true, Bool.or_eq_true, beq_iff_eq] at ordered
    obtain ⟨kinds, text | number⟩ := ordered
    · subst text
      cases u <;> simp_all [kind, areOrdered]
    · subst number
      cases u <;> simp_all [kind, areOrdered]
  exact Bool.eq_iff_iff.mpr ⟨turned t u, turned u t⟩

theorem Reads.union_comm (r s : Reads) : r.union s = s.union r := by
  simp only [union, Bool.or_comm]

namespace Expr

open Comparison (Agree)

variable {lhs rhs : Expr ν} {through : Option (Expr ν)} {env : Env ν}

theorem eval_ne (lhs rhs : Expr ν) (through : Option (Expr ν)) (env : Env ν) :
    Agree (fun x y => x = !y) ((compare .ne lhs rhs through).eval env)
      ((compare .eq lhs rhs through).eval env) := by
  rw [eval, eval]
  cases lhs.eval env with
  | error e => exact .failed
  | ok a =>
    cases rhs.eval env with
    | error e => exact .failed
    | ok b => exact Comparison.conclude_ne a b _

theorem eval_converse [Scalar.Ordered ν] (c : Comparison) (lhs rhs : Expr ν)
    (oriented : ∀ e ∈ through, ∀ k : Collator, e.eval env = .ok (.collator k) →
      Std.OrientedCmp k.engine.compare) :
    Agree (· = ·) ((compare c.converse rhs lhs through).eval env)
      ((compare c lhs rhs through).eval env) := by
  rw [eval, eval]
  cases lhs.eval env with
  | error e => cases rhs.eval env <;> exact .failed
  | ok a =>
    cases rhs.eval env with
    | error e => exact .failed
    | ok b =>
      simp only [Comparison.isOrder_converse, Bool.or_comm rhs.isUntyped, Ty.areOrdered_comm b.ty]
      split
      · exact .failed
      · refine Comparison.conclude_converse c a b fun k yields => ?_
        cases through with
        | none => cases yields
        | some e => exact oriented e rfl k (Option.some.inj yields)

/-- Two expressions of one type that read the same and of which, in every context, both fail or both
give answers that are related. -/
structure AnswerAlike (R : Bool → Bool → Prop) (e e' : Expr ν) : Prop where
  ty : e.ty = e'.ty
  reads : e.subtreeReads = e'.subtreeReads
  agree : ∀ env, Agree R (e.eval env) (e'.eval env)

variable {R : Bool → Bool → Prop} {e e' : Expr ν}

theorem AnswerAlike.passes (alike : AnswerAlike R e e') : e.passes = e'.passes := by
  have outcome := (alike.agree .blank).isOk_eq
  simp only [passes_eq, isConstant, alike.ty, alike.reads, outcome]

theorem AnswerAlike.folded (alike : AnswerAlike R e e') (env : Env ν) :
    Agree R (e.folded.eval env) (e'.folded.eval env) := by
  rw [e.folded_alike.eval env, e'.folded_alike.eval env]
  exact alike.agree env

end Expr

/-! ## What comparisons compile to -/

namespace Operator

open Comparison (Agree)
open MapStyle.Expr (AnswerAlike)

variable {l r e other : Expr ν} {through : Option (Expr ν)} {env : Env ν}

theorem eval_checkedAgainst {v : Value ν} (done : (checkedAgainst e other).eval env = .ok v) :
    e.eval env = .ok v := by
  unfold checkedAgainst at done
  split at done
  · rw [Expr.eval] at done
    obtain ⟨_, e', mem, evaluated⟩ := Expr.evalAssertion_eq_ok done
    rwa [List.mem_singleton.mp mem] at evaluated
  · exact done

omit [Platform ν] in
theorem comparisonNode_ty (c : Comparison) (l r : Expr ν) (through : Option (Expr ν)) :
    (comparisonNode c l r through).ty = .boolean := by
  unfold comparisonNode
  split <;> rfl

theorem comparisonNode_ne (l r : Expr ν) (through : Option (Expr ν)) :
    AnswerAlike (fun x y => x = !y) (comparisonNode .ne l r through)
      (comparisonNode .eq l r through) where
  ty := rfl
  reads := rfl
  agree := Expr.eval_ne l r through

theorem comparisonNode_converse [Scalar.Ordered ν] (c : Comparison) (l r : Expr ν)
    (oriented : ∀ e ∈ through, ∀ env (k : Collator), e.eval env = .ok (.collator k) →
      Std.OrientedCmp k.engine.compare) :
    AnswerAlike (· = ·) (comparisonNode c.converse r l through) (comparisonNode c l r through) := by
  have turned (l r : Expr ν) : AnswerAlike (· = ·) (.compare c.converse r l through)
      (.compare c l r through) := by
    refine ⟨rfl, ?_, fun env => ?_⟩
    · simp only [Expr.subtreeReads, Reads.union_comm r.subtreeReads]
    · exact Expr.eval_converse c l r fun e mem k => oriented e mem env k
  unfold comparisonNode
  rw [Comparison.isOrder_converse]
  split
  · exact turned _ _
  · exact turned _ _

theorem exists_order_of_node [Scalar.Ordered ν] {a b : Value ν} (isA : l.eval env = .ok a)
    (isB : r.eval env = .ok b) (ranked : Ranked a b) (through : Option (Expr ν)) :
    ∃ o : Ordering, ∀ (c : Comparison) (v : Value ν),
      (comparisonNode c l r through).eval env = .ok v → v = .boolean (c.holds o) := by
  obtain ⟨o, answers⟩ := Comparison.exists_order_of_ranked ranked (Expr.evalThrough env through)
  -- an order may assert an operand to be of the other's type, which yields the operand's own value
  have concluded (c : Comparison) {l' r' : Expr ν} {v : Value ν}
      (left : ∀ w, l'.eval env = .ok w → w = a) (right : ∀ w, r'.eval env = .ok w → w = b)
      (done : (Expr.compare c l' r' through).eval env = .ok v) : v = .boolean (c.holds o) := by
    rw [Expr.eval] at done
    cases isLeft : l'.eval env with
    | error err => simp [isLeft] at done
    | ok a' =>
      cases isRight : r'.eval env with
      | error err => simp [isLeft, isRight] at done
      | ok b' =>
        obtain rfl := left a' isLeft
        obtain rfl := right b' isRight
        simp only [isLeft, isRight] at done
        split at done
        · cases done
        · exact answers c v done
  refine ⟨o, fun c v done => ?_⟩
  have value {e : Expr ν} {x : Value ν} (is : e.eval env = .ok x) (w : Value ν)
      (yields : e.eval env = .ok w) : w = x := Except.ok.inj (yields.symm.trans is)
  unfold comparisonNode at done
  split at done
  · exact concluded c (fun w checked => value isA w (eval_checkedAgainst checked))
      (fun w checked => value isB w (eval_checkedAgainst checked)) done
  · exact concluded c (value isA) (value isB) done

end Operator

end MapStyle
