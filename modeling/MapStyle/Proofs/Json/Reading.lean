import MapStyle.Json.Reader
import MapStyle.Proofs.Json.Numbers
import MapStyle.Proofs.Number.Named

/-!
# Numbers of documents that are read

A number of a text is an integer that a word holds, or digits scaled by powers of ten.  Neither ends
in a value that is no number, so a document that is read holds none.
-/

set_option autoImplicit false

namespace MapStyle

open FloatValue

theorem Json.nanFree_int (n : Int) : (Json.int n : Json Float).NaNFree :=
  .int (Scalar.isNumber_ofInt n)

namespace WrittenNumber

theorem isNumber_of_scaled? {steps : Nat} {x y : Float} {e : Int} (number : (x == x) = true)
    (scaled : scaled? steps x e = some y) : (y == y) = true := by
  induction steps generalizing x e with
  | zero =>
    cases Option.some.inj scaled
    exact number
  | succ steps ih =>
    unfold scaled? at scaled
    split at scaled
    · rename_i small
      dsimp only at scaled
      split at scaled
      · cases Option.some.inj scaled
        exact isNumber_div number (finite_power small)
      · split at scaled
        · rename_i finite
          cases Option.some.inj scaled
          exact isNumber_of_isFinite finite
        · cases scaled
    · split at scaled
      · cases Option.some.inj scaled
        exact number
      · split at scaled
        · have power := finite_power (e := greatestPower) (Nat.le_refl _)
          exact ih (isNumber_div number power) scaled
        · cases scaled

theorem nanFree_of_toJson? {w : WrittenNumber} {j : Json Float} (read : w.toJson? = some j) :
    j.NaNFree := by
  have number {steps m e} {x : Float} (scaled : scaled? steps (Scalar.ofInt m) e = some x) :
      (x == x) = true := isNumber_of_scaled? (Scalar.isNumber_ofInt m) scaled
  unfold toJson? at read
  dsimp only at read
  cases sign : w.negative with
  | false =>
    simp only [sign, Bool.false_eq_true, if_false] at read
    split at read
    · cases Option.some.inj read
      exact Json.nanFree_int _
    · obtain ⟨x, scaled, rfl⟩ := Option.map_eq_some_iff.mp read
      exact .float (number scaled)
  | true =>
    simp only [sign, if_true] at read
    split at read
    · cases Option.some.inj read
      exact Json.nanFree_int _
    · obtain ⟨x, scaled, rfl⟩ := Option.map_eq_some_iff.mp read
      exact .float (isNumber_neg (number scaled))

end WrittenNumber

/-! ## Documents -/

namespace Written

mutual

theorem nanFree_of_toJsonWithin? (depth : Nat) : (w : Written) → (j : Json Float) →
    w.toJsonWithin? depth = some j → j.NaNFree
  | .null, _, read => Option.some.inj read ▸ .null
  | .bool b, _, read => Option.some.inj read ▸ .bool b
  | .number n, _, read => WrittenNumber.nanFree_of_toJson? read
  | .text gs, j, read => by
    obtain ⟨s, _, rfl⟩ := Option.map_eq_some_iff.mp read
    exact .str s
  | .arr items, j, read => by
    rw [toJsonWithin?] at read
    split at read
    · cases read
    · obtain ⟨js, items, rfl⟩ := Option.map_eq_some_iff.mp read
      exact .arr (nanFree_of_itemsWithin? _ _ _ items)
  | .obj members, j, read => by
    rw [toJsonWithin?] at read
    split at read
    · cases read
    · obtain ⟨ms, members, rfl⟩ := Option.map_eq_some_iff.mp read
      refine .obj ?_
      intro m mem
      exact nanFree_of_membersWithin? _ _ _ members m (mem_of_mem_sortMembers mem)
termination_by structural w => w

theorem nanFree_of_itemsWithin? (depth : Nat) : (ws : List Written) → (js : List (Json Float)) →
    itemsWithin? depth ws = some js → ∀ j ∈ js, j.NaNFree
  | [], _, read => Option.some.inj read ▸ List.forall_mem_nil _
  | w :: rest, _, read => by
    rw [itemsWithin?] at read
    split at read
    · rename_i first others
      cases Option.some.inj read
      exact List.forall_mem_cons.mpr
        ⟨nanFree_of_toJsonWithin? _ _ _ first, nanFree_of_itemsWithin? _ _ _ others⟩
    · cases read
termination_by structural ws => ws

theorem nanFree_of_membersWithin? (depth : Nat) : (ws : List (List Glyph × Written)) →
    (ms : List (String × Json Float)) → membersWithin? depth ws = some ms → ∀ m ∈ ms, m.2.NaNFree
  | [], _, read => Option.some.inj read ▸ List.forall_mem_nil _
  | (key, w) :: rest, _, read => by
    rw [membersWithin?] at read
    split at read
    · rename_i first others
      cases Option.some.inj read
      exact List.forall_mem_cons.mpr
        ⟨nanFree_of_toJsonWithin? _ _ _ first, nanFree_of_membersWithin? _ _ _ others⟩
    · cases read
termination_by structural ws => ws

end

end Written

/-- A document that is read holds no value that is no number. -/
theorem Json.nanFree_of_read? {text : String} {j : Json Float} (read : Json.read? text = some j) :
    j.NaNFree := by
  obtain ⟨w, _, described⟩ := Option.bind_eq_some_iff.mp read
  exact Written.nanFree_of_toJsonWithin? _ w j described

end MapStyle
