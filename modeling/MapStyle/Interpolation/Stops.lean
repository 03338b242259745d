import MapStyle.Number.Scalar

/-!
# Stops

Labels of stops ascend.  An input belongs to the last label at or below it, and lies between that
label and the next; inputs below the first label and above the last are held at the ends.  The label
is searched by halving: among labels that do not ascend the search ends at one whose place depends
on those that it looks at.
-/

set_option autoImplicit false

namespace MapStyle

variable {ν : Type} [Scalar ν]

/-- How many items pass, where those that pass come before those that fail; at most `n` halvings. -/
def countPassing {α : Type} (passes : α → Bool) : Nat → List α → Nat
  | _, [] => 0
  | _, [a] => if passes a then 1 else 0
  | 0, _ => 0
  | n + 1, items =>
    let half := items.length / 2
    if (items.drop half).head?.any passes then half + countPassing passes n (items.drop half)
    else countPassing passes n (items.take (items.length - half))

/-- The place of the last label at or below an input, and the first place if there is none. -/
def stopIndex (labels : List ν) (x : ν) : Nat :=
  countPassing (fun l => l ≤ x) labels.length labels - 1

inductive Selection (ν : Type) where
  /-- the output of one stop -/
  | only (i : Nat)
  /-- the outputs of a stop and the next one, and the labels of both -/
  | between (i : Nat) (lower upper : ν)

/-- What an input selects among ascending labels: the first stop at or below the first label, the
last stop at or above the last one, and two neighbours in between. -/
def selectStop (labels : List ν) (x : ν) : Selection ν :=
  match labels.head?, labels.getLast? with
  | some first, some last =>
    if labels.length = 1 || x ≤ first then .only 0
    else if last ≤ x then .only (labels.length - 1)
    else
      let i := stopIndex labels x
      match labels[i]?, labels[i + 1]? with
      | some lower, some upper => .between i lower upper
      | _, _ => .only 0
  | _, _ => .only 0

end MapStyle
