import MapStyle.Proofs.Number.Order
import MapStyle.Value.Basic

/-!
# Equality of values

Equality of values does not depend on their order, part by part down to the numbers.  It is no
equivalence: a value that holds a number that is none differs from itself.
-/

set_option autoImplicit false

namespace MapStyle

section Lists

variable {α : Type} [BEq α] (comm : ∀ a b : α, (a == b) = (b == a))
include comm

theorem beq_comm_list (xs ys : List α) : (xs == ys) = (ys == xs) := by
  induction xs generalizing ys with
  | nil => cases ys <;> rfl
  | cons x xs ih =>
    cases ys with
    | nil => rfl
    | cons y ys => rw [List.cons_beq_cons, List.cons_beq_cons, comm x y, ih ys]

theorem beq_comm_option (a b : Option α) : (a == b) = (b == a) := by
  cases a with
  | none => cases b <;> rfl
  | some x =>
    cases b with
    | none => rfl
    | some y => exact comm x y

end Lists

variable {ν : Type} [Scalar ν]

section Parts

variable [Scalar.Ordered ν]

theorem Scalar.beq_comm (x y : ν) : (x == y) = (y == x) :=
  Bool.eq_iff_iff.mpr ⟨Scalar.beq_symm, Scalar.beq_symm⟩

theorem Color.beq_comm (c d : Color ν) : (c == d) = (d == c) := by
  show (c.r == d.r && c.g == d.g && c.b == d.b && c.a == d.a) =
    (d.r == c.r && d.g == c.g && d.b == c.b && d.a == c.a)
  rw [Scalar.beq_comm c.r, Scalar.beq_comm c.g, Scalar.beq_comm c.b, Scalar.beq_comm c.a]

theorem Padding.beq_comm (p q : Padding ν) : (p == q) = (q == p) := by
  show (p.top == q.top && p.right == q.right && p.bottom == q.bottom && p.left == q.left) =
    (q.top == p.top && q.right == p.right && q.bottom == p.bottom && q.left == p.left)
  rw [Scalar.beq_comm p.top, Scalar.beq_comm p.right, Scalar.beq_comm p.bottom,
    Scalar.beq_comm p.left]

theorem Section.beq_comm (s t : Section ν) : (s == t) = (t == s) := by
  show (s.text == t.text && s.scale == t.scale && s.font == t.font) =
    (t.text == s.text && t.scale == s.scale && t.font == s.font)
  rw [BEq.comm (a := s.text), beq_comm_option Scalar.beq_comm s.scale, BEq.comm (a := s.font)]

theorem Formatted.beq_comm (f g : Formatted ν) : (f == g) = (g == f) :=
  beq_comm_list Section.beq_comm f.sections g.sections

theorem Collator.beq_comm (c d : Collator) : (c == d) = (d == c) := by
  show (c.locale == d.locale && c.sensitivity == d.sensitivity) =
    (d.locale == c.locale && d.sensitivity == c.sensitivity)
  rw [BEq.comm (a := c.locale), BEq.comm (a := c.sensitivity)]

end Parts

namespace Value

mutual

theorem beq_symmetric [Scalar.Ordered ν] : (a b : Value ν) → a.beq b = b.beq a
  | .null, b => by cases b <;> rfl
  | .boolean x, b => by
    cases b with
    | boolean y => exact BEq.comm
    | _ => rfl
  | .number x, b => by
    cases b with
    | number y => exact Scalar.beq_comm x y
    | _ => rfl
  | .string s, b => by
    cases b with
    | string t => exact BEq.comm
    | _ => rfl
  | .color c, b => by
    cases b with
    | color d => exact Color.beq_comm c d
    | _ => rfl
  | .collator c, b => by
    cases b with
    | collator d => exact Collator.beq_comm c d
    | _ => rfl
  | .formatted f, b => by
    cases b with
    | formatted g => exact Formatted.beq_comm f g
    | _ => rfl
  | .image i, b => by
    cases b with
    | image j => exact BEq.comm
    | _ => rfl
  | .padding p, b => by
    cases b with
    | padding q => exact Padding.beq_comm p q
    | _ => rfl
  | .numberArray xs, b => by
    cases b with
    | numberArray ys => exact beq_comm_list Scalar.beq_comm xs ys
    | _ => rfl
  | .colorArray cs, b => by
    cases b with
    | colorArray ds => exact beq_comm_list Color.beq_comm cs ds
    | _ => rfl
  | .array xs, b => by
    cases b with
    | array ys => exact beqItems_symmetric xs ys
    | _ => rfl
  | .object ms, b => by
    cases b with
    | object ns => exact beqMembers_symmetric ms ns
    | _ => rfl
termination_by structural a => a

theorem beqItems_symmetric [Scalar.Ordered ν] :
    (xs ys : List (Value ν)) → beqItems xs ys = beqItems ys xs
  | [], ys => by cases ys <;> rfl
  | x :: xs, ys => by
    cases ys with
    | nil => rfl
    | cons y ys => rw [beqItems, beqItems, beq_symmetric x y, beqItems_symmetric xs ys]
termination_by structural xs => xs

theorem beqMembers_symmetric [Scalar.Ordered ν] :
    (ms ns : List (String × Value ν)) → beqMembers ms ns = beqMembers ns ms
  | [], ns => by cases ns <;> rfl
  | (k, x) :: ms, ns => by
    cases ns with
    | nil => rfl
    | cons n ns =>
      obtain ⟨l, y⟩ := n
      rw [beqMembers, beqMembers, BEq.comm (a := k), beq_symmetric x y, beqMembers_symmetric ms ns]
termination_by structural ms => ms

end

theorem beq_comm [Scalar.Ordered ν] (a b : Value ν) : (a == b) = (b == a) := beq_symmetric a b

end Value

end MapStyle
