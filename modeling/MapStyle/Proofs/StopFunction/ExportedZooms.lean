import MapStyle.Proofs.StopFunction.Acceptance

/-!
# The zooms that a function names

A function of zoom and values names the zooms of its groups, in order.  A function of the zoom alone
names the numbers among its inputs as they are given: the rules that compare inputs refuse numbers
that descend, and the other two rules take them.  Among zooms in order the search finds the last one
at or below an input.
-/

set_option autoImplicit false

namespace MapStyle

variable {ν : Type} [Scalar ν]

/-! ## What the search finds -/

/-- The place of the last label at or below an input, and the first place where there is none. -/
inductive LastAtOrBelow (labels : List ν) (x : ν) : Nat → Prop
  | found {i : Nat} {l : ν} : labels[i]? = some l → l ≤ x →
    (∀ j u, labels[j]? = some u → u ≤ x → j ≤ i) → LastAtOrBelow labels x i
  | first : (∀ l ∈ labels, ¬ l ≤ x) → LastAtOrBelow labels x 0

theorem LastAtOrBelow.unique {labels : List ν} {x : ν} {i j : Nat}
    (atI : LastAtOrBelow labels x i) (atJ : LastAtOrBelow labels x j) : i = j := by
  cases atI with
  | found isI belowI lastI =>
    cases atJ with
    | found isJ belowJ lastJ =>
      exact Nat.le_antisymm (lastJ _ _ isI belowI) (lastI _ _ isJ belowJ)
    | first none => exact absurd belowI (none _ (List.mem_of_getElem? isI))
  | first none =>
    cases atJ with
    | found isJ belowJ _ => exact absurd belowJ (none _ (List.mem_of_getElem? isJ))
    | first _ => rfl

theorem stopIndex_lastAtOrBelow [Scalar.Ordered ν] {labels : List ν}
    (sorted : labels.Pairwise (· ≤ ·)) (x : ν) : LastAtOrBelow labels x (stopIndex labels x) := by
  cases labels with
  | nil => exact .first (List.forall_mem_nil _)
  | cons first rest =>
    by_cases below : first ≤ x
    · obtain ⟨i, l, found, le, next⟩ := exists_last_le below
      rw [stopIndex_eq sorted found le next]
      refine .found found le ?_
      intro j u isLater laterLe
      by_contra later
      obtain ⟨inside, rfl⟩ := List.getElem?_eq_some_iff.mp isLater
      have nextInside : i + 1 < (first :: rest).length := by omega
      have isNext := List.getElem?_eq_getElem nextInside
      rcases Nat.eq_or_lt_of_le (show i + 1 ≤ j by omega) with same | before
      · subst same
        exact next _ isNext laterLe
      · have le := List.pairwise_iff_getElem.mp sorted (i + 1) j nextInside inside before
        exact next _ isNext (Scalar.le_trans le laterLe)
    · have none : ∀ l ∈ first :: rest, ¬ l ≤ x := by
        intro l mem le
        rcases List.mem_cons.mp mem with same | mem
        · subst same
          exact below le
        · exact below (Scalar.le_trans ((List.pairwise_cons.mp sorted).1 l mem) le)
      rw [stopIndex_of_none none]
      exact .first none

namespace CompiledFunction

/-- The numbers among the inputs of the stops, as they are given. -/
def givenZooms (p : FunctionParameters ν) : List ν :=
  p.stops.filterMap fun stop => stop.key.asNumber?

section Ordered

variable [Scalar.Ordered ν] {p : FunctionParameters ν} {s : PropertySpec ν}
  {f : CompiledFunction ν}

omit [Scalar.Ordered ν] in
theorem zoomStops_eq_of_camera (compiled : compile p s = .ok f) (camera : f.kind = .camera) :
    p.isComposite = false ∧ f.zoomStops = givenZooms p := by
  cases shape : p.isComposite with
  | true =>
    obtain ⟨parts⟩ := compositeParts_of_compile compiled shape
    rw [parts.eq_composite] at camera
    cases camera
  | false =>
    obtain ⟨type, space, _, _, made⟩ := compileSimple_of_compile compiled shape
    obtain ⟨g, _, ⟨name, _, isSource⟩ | ⟨_, isCamera⟩⟩ := source_or_camera made
    · rw [isSource] at camera
      cases camera
    · exact ⟨rfl, congrArg zoomStops isCamera⟩

theorem ascending_of_composite (compiled : compile p s = .ok f) (free : StopsNaNFree p.stops)
    (composite : f.kind = .composite) : f.zoomStops.Pairwise (· < ·) := by
  cases shape : p.isComposite with
  | true =>
    obtain ⟨parts⟩ := compositeParts_of_compile compiled shape
    have zooms : f.zoomStops = parts.stops.map (·.1) := congrArg zoomStops parts.eq_composite
    exact zooms ▸ parts.ascending free.hasZoom
  | false =>
    obtain ⟨type, space, _, _, made⟩ := compileSimple_of_compile compiled shape
    obtain ⟨g, _, ⟨name, _, rfl⟩ | ⟨_, rfl⟩⟩ := source_or_camera made
    · cases composite
    · cases composite

/-- The rules that compare inputs take numbers that do not descend only. -/
theorem givenZooms_ordered_of_rule (compiled : compile p s = .ok f) (free : StopsNaNFree p.stops)
    (simple : p.isComposite = false)
    (rule : ruleOf p s = .ok .exponential ∨ ruleOf p s = .ok .interval) :
    (givenZooms p).Pairwise (· ≤ ·) := by
  obtain ⟨type, space, ruled, _, made⟩ := compileSimple_of_compile compiled simple
  have rule : type = .exponential ∨ type = .interval := by
    rw [ruled] at rule
    exact rule.imp Except.ok.inj Except.ok.inj
  obtain ⟨g, inner, _⟩ := source_or_camera made
  obtain ⟨table, default, tableMade, _, _⟩ := StopFunction.eq_of_make inner
  obtain ⟨values, rfl⟩ := StopTable.exists_numeric_of_make tableMade rule
  obtain ⟨_, entries, _, ordered⟩ := StopTable.ascending_of_make free tableMade
  rw [givenZooms, ← StopTable.labels_eq entries]
  exact ordered

theorem zoomStops_ordered (compiled : compile p s = .ok f) (free : StopsNaNFree p.stops)
    (given : f.kind = .camera →
      ruleOf p s = .ok .categorical ∨ ruleOf p s = .ok .identity →
        (givenZooms p).Pairwise (· ≤ ·)) :
    f.zoomStops.Pairwise (· ≤ ·) := by
  cases kind : f.kind with
  | source =>
    cases f with
    | source => exact .nil
    | _ => cases kind
  | composite => exact (ascending_of_composite compiled free kind).imp Scalar.le_of_lt
  | camera =>
    obtain ⟨simple, zooms⟩ := zoomStops_eq_of_camera compiled kind
    obtain ⟨type, _, ruled, _, _⟩ := compileSimple_of_compile compiled simple
    rw [zooms]
    cases type with
    | exponential => exact givenZooms_ordered_of_rule compiled free simple (Or.inl ruled)
    | interval => exact givenZooms_ordered_of_rule compiled free simple (Or.inr ruled)
    | categorical => exact given kind (Or.inl ruled)
    | identity => exact given kind (Or.inr ruled)

/-- A function of the zoom names the zooms as they are given, and one that takes a value too names
them in strict order.  The zooms are in order unless the rule compares no inputs and the stops of a
function of the zoom are given out of order; and where they are, the search over them finds the last
one at or below an input. -/
theorem search_zoomStops (compiled : compile p s = .ok f) (free : StopsNaNFree p.stops) :
    (f.kind = .camera → f.zoomStops = givenZooms p) ∧
      (f.kind = .composite → f.zoomStops.Pairwise (· < ·)) ∧
      ((f.kind = .camera → ruleOf p s = .ok .categorical ∨ ruleOf p s = .ok .identity →
          (givenZooms p).Pairwise (· ≤ ·)) →
        f.zoomStops.Pairwise (· ≤ ·) ∧
          ∀ x, LastAtOrBelow f.zoomStops x (stopIndex f.zoomStops x)) := by
  refine ⟨fun camera => (zoomStops_eq_of_camera compiled camera).2,
    ascending_of_composite compiled free, fun given => ?_⟩
  have ordered := zoomStops_ordered compiled free given
  exact ⟨ordered, stopIndex_lastAtOrBelow ordered⟩

end Ordered

def namesAt (zooms : List Int) : FunctionParameters Float where
  typeName := some "categorical"
  property := none
  base := none
  colorSpace := none
  default := none
  stops := zooms.map fun zoom => ⟨.int zoom, .str "a"⟩

theorem namesAt_free (zooms : List Int) : StopsNaNFree (namesAt zooms).stops := by
  intro stop mem
  obtain ⟨zoom, _, rfl⟩ := List.mem_map.mp mem
  exact Json.nanFree_int zoom

theorem search_zoomStops_of_names :
    (∃ f, compile (namesAt [5, 10, 20]) (.ofType "string") = .ok f ∧ f.kind = .camera ∧
      LastAtOrBelow f.zoomStops (Scalar.ofInt 12) 1) ∧
    ∃ f, compile numberedNames (.ofType "string") = .ok f ∧ f.kind = .composite ∧
      f.zoomStops.Pairwise (· < ·) ∧ LastAtOrBelow f.zoomStops (Scalar.ofInt 2) 0 := by
  constructor
  · obtain ⟨f, compiled, camera, place⟩ : ∃ f : CompiledFunction Float,
        compile (namesAt [5, 10, 20]) (.ofType "string") = .ok f ∧ f.kind = .camera ∧
          stopIndex f.zoomStops (Scalar.ofInt 12) = 1 := ⟨_, rfl, rfl, by decide +kernel⟩
    have inOrder : (givenZooms (namesAt [5, 10, 20])).Pairwise (· ≤ ·) := by decide +kernel
    obtain ⟨_, _, search⟩ := search_zoomStops compiled (namesAt_free _)
    exact ⟨f, compiled, camera, place ▸ (search fun _ _ => inOrder).2 (Scalar.ofInt 12)⟩
  · obtain ⟨f, compiled, composite, place⟩ : ∃ f : CompiledFunction Float,
        compile numberedNames (.ofType "string") = .ok f ∧ f.kind = .composite ∧
          stopIndex f.zoomStops (Scalar.ofInt 2) = 0 := ⟨_, rfl, rfl, by decide +kernel⟩
    obtain ⟨_, strictly, search⟩ := search_zoomStops compiled numberedNames_free
    have noCamera : f.kind ≠ .camera := fun camera => nomatch composite.symm.trans camera
    obtain ⟨_, finds⟩ := search fun camera => absurd camera noCamera
    exact ⟨f, compiled, composite, strictly composite, place ▸ finds (Scalar.ofInt 2)⟩

/-- Zooms out of order are taken where they are only compared for equality, and the search over them
misses the last one below an input. -/
theorem zooms_out_of_order_are_kept :
    ∃ f, compile (namesAt [5, 20, 10]) (.ofType "string") = .ok f ∧ f.isZoomDependent = true ∧
      StopsNaNFree (namesAt [5, 20, 10]).stops ∧
      f.zoomStops = [(Scalar.ofInt 5 : Float), Scalar.ofInt 20, Scalar.ofInt 10] ∧
      ¬ f.zoomStops.Pairwise (· ≤ ·) ∧
      LastAtOrBelow f.zoomStops (Scalar.ofInt 12) 2 ∧
      ¬ LastAtOrBelow f.zoomStops (Scalar.ofInt 12) (stopIndex f.zoomStops (Scalar.ofInt 12)) := by
  have last : LastAtOrBelow [(Scalar.ofInt 5 : Float), Scalar.ofInt 20, Scalar.ofInt 10]
      (Scalar.ofInt 12) 2 := by
    refine .found rfl (by decide +kernel) ?_
    intro j u isLabel _
    have inside := (List.getElem?_eq_some_iff.mp isLabel).1
    exact Nat.le_of_lt_succ inside
  have found : stopIndex [(Scalar.ofInt 5 : Float), Scalar.ofInt 20, Scalar.ofInt 10]
      (Scalar.ofInt 12) = 0 := by decide +kernel
  refine ⟨_, rfl, rfl, namesAt_free _, rfl, by decide +kernel, last, fun missed => ?_⟩
  exact absurd (found.symm.trans (missed.unique last)) (by decide)

end CompiledFunction

end MapStyle
