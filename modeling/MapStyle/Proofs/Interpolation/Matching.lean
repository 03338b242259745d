import MapStyle.Number.Float
import MapStyle.Proofs.Typing

/-!
# Values that match

Two values match if they can blend part by part: numbers, colors, paddings, and lists of one length
whose entries are numbers or colors.  A blend keeps the type of the first value, is that value where
the two do not match, and in RGB is the straight line of the type.
-/

set_option autoImplicit false

namespace MapStyle

variable {ν : Type} [Scalar ν]

namespace Value

/-- Values that blend part by part; plain arrays only if all their items are numbers. -/
inductive Matches : Value ν → Value ν → Prop
  | numbers (x y : ν) : Matches (.number x) (.number y)
  | colors (c d : Color ν) : Matches (.color c) (.color d)
  | paddings (p q : Padding ν) : Matches (.padding p) (.padding q)
  | numberArrays {xs ys : List ν} : xs.length = ys.length →
      Matches (.numberArray xs) (.numberArray ys)
  | colorArrays {cs ds : List (Color ν)} : cs.length = ds.length →
      Matches (.colorArray cs) (.colorArray ds)
  | arrays {xs ys : List ν} : xs.length = ys.length →
      Matches (.array (xs.map .number)) (.array (ys.map .number))

omit [Scalar ν] in
theorem Matches.length_eq {xs ys : List ν}
    (matching : Matches (.numberArray xs) (.numberArray ys)) : xs.length = ys.length := by
  cases matching with
  | numberArrays same => exact same

theorem numbers_of_lerpItems? {t : ν} {items items' blended : List (Value ν)}
    (same : items.length = items'.length) (blends : lerpItems? t items items' = some blended) :
    ∃ xs ys : List ν, items = xs.map .number ∧ items' = ys.map .number := by
  induction items generalizing items' blended with
  | nil =>
    have none : items' = [] := List.length_eq_zero_iff.mp same.symm
    exact ⟨[], [], rfl, none⟩
  | cons a rest ih =>
    cases items' with
    | nil => cases same
    | cons b rest' =>
      unfold lerpItems? at blends
      split at blends
      · rename_i x xs y ys left right
        obtain ⟨rfl, rfl⟩ := List.cons.inj left
        obtain ⟨rfl, rfl⟩ := List.cons.inj right
        obtain ⟨more, later, _⟩ := Option.map_eq_some_iff.mp blends
        obtain ⟨xs, ys, rfl, rfl⟩ := ih (Nat.succ.inj same) later
        exact ⟨x :: xs, y :: ys, rfl, rfl⟩
      · cases blends
      · rename_i someEmpty
        exact (someEmpty a rest b rest' rfl rfl).elim

theorem lerpNumbers_of_length_ne {xs ys : List ν} (differ : xs.length ≠ ys.length) (t : ν) :
    lerpNumbers xs ys t = xs :=
  if_neg differ

theorem blend_of_not_matches {a b : Value ν} (apart : ¬ Matches a b) (space : ColorSpace) (t : ν) :
    a.blend space b t = a := by
  unfold blend
  split
  · exact absurd (.numbers _ _) apart
  · exact absurd (.colors _ _) apart
  · exact absurd (.paddings _ _) apart
  · rw [lerpNumbers_of_length_ne fun same => apart (.numberArrays same)]
  · exact if_neg fun same => apart (.colorArrays same)
  · rename_i items items'
    split
    · rename_i same
      split
      · rename_i blended blends
        obtain ⟨xs, ys, rfl, rfl⟩ := numbers_of_lerpItems? same blends
        exact absurd (.arrays (by simpa using same)) apart
      · rfl
    · rfl
  · rfl

/-- The types whose values have a straight line of their own. -/
def lineTypes : List Ty := [.number, .color, .padding, .numberArray, .colorArray]

/-- Two values of such a type blend in RGB along that line, lists of two lengths included. -/
theorem lerp?_eq_blend {a b : Value ν} (line : a.ty ∈ lineTypes) (same : b.ty = a.ty) (t : ν) :
    a.lerp? b t = some (a.blend .rgb b t) := by
  cases a with
  | number x =>
    cases b with
    | number y => rfl
    | _ => cases same
  | color c =>
    cases b with
    | color d => rfl
    | _ => cases same
  | padding p =>
    cases b with
    | padding q => rfl
    | _ => cases same
  | numberArray xs =>
    cases b with
    | numberArray ys => rfl
    | _ => cases same
  | colorArray cs =>
    cases b with
    | colorArray ds =>
      rw [lerp?, blend, lerpColors]
      split <;> rfl
    | _ => cases same
  | _ => simp [ty, lineTypes] at line

/-- A blend has the type of its first value; it is that value where the two do not match; and in
RGB it is the straight line of the type, where the type has one. -/
theorem blend_keepsShape (space : ColorSpace) (a b : Value ν) (t : ν) :
    (a.blend space b t).ty = a.ty ∧ (¬ Matches a b → a.blend space b t = a) ∧
      (a.ty ∈ lineTypes → b.ty = a.ty → a.lerp? b t = some (a.blend .rgb b t)) :=
  ⟨blend_ty space a b t, fun apart => blend_of_not_matches apart space t,
    fun line same => lerp?_eq_blend line same t⟩

def widths : Value Float := .numberArray [1, 2]

def width : Value Float := .numberArray [5]

/-- Number arrays of two lengths do not match and hold the first, by both ways of blending. -/
theorem blend_keepsShape_of_twoLengths : ¬ Matches widths width ∧ widths.ty ∈ lineTypes ∧
    widths.blend .hcl width 0.5 = widths ∧ widths.lerp? width 0.5 = some widths := by
  have apart : ¬ Matches widths width := by
    intro matching
    exact absurd matching.length_eq (by decide)
  have line : widths.ty ∈ lineTypes := by simp [widths, ty, lineTypes]
  have same : width.ty = widths.ty := by rw [width, widths, ty, ty]
  have held (space : ColorSpace) : widths.blend space width 0.5 = widths :=
    (blend_keepsShape space widths width 0.5).2.1 apart
  have straight : widths.lerp? width 0.5 = some (widths.blend .rgb width 0.5) :=
    (blend_keepsShape .rgb widths width 0.5).2.2 line same
  exact ⟨apart, line, held .hcl, straight.trans (congrArg some (held .rgb))⟩

end Value

end MapStyle
