import MapStyle.Proofs.StopFunction.Acceptance

/-!
# The stops that errors name

A definition that is refused for one of its stops names a place.  For a function of one input this
is the place of the stop, and a stop of a composite function that has no zoom or no value is named
by its place too.  Everything else is checked after the stops are regrouped by zoom, and counted
there: a zoom among the zooms, each where it first appears, and a stop among those of its zoom.  So
the place is not beyond the stop, and it can fall short of it.
-/

set_option autoImplicit false

namespace MapStyle

variable {ν : Type} [Scalar ν]

def FunctionError.index? : FunctionError → Option Nat
  | .nonNumericStop i => some i
  | .unsortedStops i => some i
  | .invalidStopOutput i _ _ => some i
  | .malformedCompositeKey i => some i
  | _ => none

theorem error_of_map_eq_error {ε α β : Type} {f : α → β} {x : Except ε α} {e : ε}
    (mapped : x.map f = .error e) : x = .error e := by
  cases x with
  | error e' => exact congrArg Except.error (Except.error.inj mapped)
  | ok a => cases mapped

/-! ## Stops of one input -/

namespace StopTable

/-- What is wrong with a stop after others, and the error that says so with a place. -/
inductive Fault (s : PropertySpec ν) (before : List (Stop ν)) (stop : Stop ν) (i : Nat) :
    FunctionError → Prop
  | notNumber : stop.key.asNumber? = none → Fault s before stop i (.nonNumericStop i)
  | descends {x y : ν} {other : Stop ν} : stop.key.asNumber? = some x → other ∈ before →
    other.key.asNumber? = some y → x < y → Fault s before stop i (.unsortedStops i)
  | output : s.parseValue? stop.output = none →
    Fault s before stop i (.invalidStopOutput i stop.output.render s.typeName)

variable {s : PropertySpec ν} {e : FunctionError}

theorem Fault.of_parseOutput {i : Nat} {before : List (Stop ν)} {stop : Stop ν}
    (refused : s.parseOutput i stop.output = .error e) : Fault s before stop i e := by
  unfold PropertySpec.parseOutput at refused
  cases parsed : s.parseValue? stop.output with
  | some v => rw [parsed] at refused; cases refused
  | none =>
    rw [parsed] at refused
    cases Except.error.inj refused
    exact .output parsed

theorem numericStops_eq_error (seen : List (Stop ν)) {rest : List (Stop ν)} {last : Option ν}
    (known : ∀ l ∈ last, ∃ other ∈ seen, other.key.asNumber? = some l)
    (refused : numericStops s seen.length last rest = .error e) :
    ∃ before stop after, seen ++ rest = before ++ stop :: after ∧
      Fault s before stop before.length e := by
  -- the stops seen so far grow by one; the last label is always one of theirs
  induction rest generalizing seen last with
  | nil => cases refused
  | cons stop rest ih =>
    rw [numericStops] at refused
    cases number : stop.key.asNumber? with
    | none =>
      rw [number] at refused
      cases Except.error.inj refused
      exact ⟨seen, stop, rest, rfl, .notNumber number⟩
    | some x =>
      simp only [number] at refused
      split at refused
      · rename_i below
        cases Except.error.inj refused
        obtain ⟨y, isLast, less⟩ := (Option.any_eq_true _ _).mp below
        obtain ⟨other, mem, label⟩ := known y isLast
        exact ⟨seen, stop, rest, rfl, .descends number mem label (of_decide_eq_true less)⟩
      · split at refused
        · rename_i parsed
          cases Except.error.inj refused
          exact ⟨seen, stop, rest, rfl, .of_parseOutput parsed⟩
        · split at refused
          · rename_i later
            cases Except.error.inj refused
            rw [List.append_cons]
            apply ih (seen ++ [stop]) _ (by simpa using later)
            intro l isLast
            cases Option.some.inj isLast
            exact ⟨stop, by simp, number⟩
          · cases refused

theorem categoricalStops_eq_error (seen : List (Stop ν)) {rest : List (Stop ν)}
    (refused : categoricalStops s seen.length rest = .error e) :
    ∃ before stop after, seen ++ rest = before ++ stop :: after ∧
      Fault s before stop before.length e := by
  induction rest generalizing seen with
  | nil => cases refused
  | cons stop rest ih =>
    rw [categoricalStops] at refused
    split at refused
    · rename_i parsed
      cases Except.error.inj refused
      exact ⟨seen, stop, rest, rfl, .of_parseOutput parsed⟩
    · split at refused
      · rename_i later
        cases Except.error.inj refused
        rw [List.append_cons]
        exact ih (seen ++ [stop]) (by simpa using later)
      · cases refused

/-- Stops that make no table have one that is at fault, and its place is in the error. -/
theorem make_eq_error {type : FunctionType} {stops : List (Stop ν)}
    (refused : make s type stops = .error e) (indexed : e.index?.isSome = true) :
    ∃ before stop after, stops = before ++ stop :: after ∧ Fault s before stop before.length e := by
  have numeric (refused : make.numericTable s stops = .error e) :
      ∃ before stop after, stops = before ++ stop :: after ∧
        Fault s before stop before.length e := by
    unfold make.numericTable at refused
    split at refused
    · cases Except.error.inj refused
      cases indexed
    · exact numericStops_eq_error [] (by simp) (error_of_map_eq_error refused)
  cases type with
  | identity => cases refused
  | categorical =>
    simp only [make] at refused
    split at refused
    · cases Except.error.inj refused
      cases indexed
    · exact categoricalStops_eq_error [] (error_of_map_eq_error refused)
  | interval => exact numeric refused
  | exponential => exact numeric refused

end StopTable

/-! ## Regrouped stops -/

theorem regroup_eq_error (seen : List (Stop ν)) {rest : List (Stop ν)}
    {groups : List (ν × List (Stop ν))} {e : FunctionError}
    (refused : regroup seen.length groups rest = .error e) :
    ∃ before stop after, seen ++ rest = before ++ stop :: after ∧ stop.zoomAndValue? = none ∧
      e = .malformedCompositeKey before.length := by
  induction rest generalizing seen groups with
  | nil => cases refused
  | cons stop rest ih =>
    rw [regroup] at refused
    cases known : stop.zoomAndValue? with
    | none =>
      rw [known] at refused
      exact ⟨seen, stop, rest, rfl, known, (Except.error.inj refused).symm⟩
    | some entry =>
      simp only [known] at refused
      rw [List.append_cons]
      exact ih (seen ++ [stop]) (by simpa using refused)

theorem descent?_eq_some {i k : Nat} {xs : List ν} (descends : descent? i xs = some k) :
    ∃ before x y after, xs = before ++ x :: y :: after ∧ y < x ∧ k = i + before.length + 1 := by
  induction xs generalizing i with
  | nil => cases descends
  | cons x rest ih =>
    cases rest with
    | nil => cases descends
    | cons y rest =>
      rw [descent?] at descends
      split at descends
      · rename_i below
        exact ⟨[], x, y, rest, rfl, below, (Option.some.inj descends).symm⟩
      · obtain ⟨before, x', y', after, same, below, place⟩ := ih descends
        refine ⟨x :: before, x', y', after, congrArg (x :: ·) same, below, ?_⟩
        rw [List.length_cons]
        omega

theorem eraseDups_loop_concat {α : Type} (r : α → α → Bool) (a : α) (as seen : List α) :
    List.eraseDupsBy.loop r (as ++ [a]) seen =
      if (List.eraseDupsBy.loop r as seen).any (r a) then List.eraseDupsBy.loop r as seen
      else List.eraseDupsBy.loop r as seen ++ [a] := by
  induction as generalizing seen with
  | nil =>
    rw [List.nil_append, List.eraseDupsBy.loop, List.eraseDupsBy.loop, List.any_reverse]
    cases seen.any (r a) with
    | true => rfl
    | false => simp [List.eraseDupsBy.loop]
  | cons b rest ih =>
    rw [List.cons_append, List.eraseDupsBy.loop, List.eraseDupsBy.loop]
    cases seen.any (r b) with
    | true => exact ih seen
    | false => exact ih (b :: seen)

theorem zoomsOf_concat {stop : Stop ν} {z : ν} (known : stop.zoom? = some z)
    (stops : List (Stop ν)) :
    zoomsOf (stops ++ [stop]) =
      if (zoomsOf stops).any (z == ·) then zoomsOf stops else zoomsOf stops ++ [z] := by
  rw [zoomsOf, List.filterMap_append, List.filterMap_cons_some known]
  exact eraseDups_loop_concat _ z _ []

theorem zoomsOf_concat_of_none {stop : Stop ν} (unknown : stop.zoom? = none)
    (stops : List (Stop ν)) : zoomsOf (stops ++ [stop]) = zoomsOf stops := by
  rw [zoomsOf, List.filterMap_append, List.filterMap_cons_none unknown, List.filterMap_nil,
    List.append_nil, zoomsOf]

theorem length_zoomsOf_le (stops : List (Stop ν)) : (zoomsOf stops).length ≤ stops.length := by
  induction stops using List.reverseRecOn with
  | nil => exact Nat.le_refl _
  | append_singleton stops stop ih =>
    rw [List.length_append, List.length_singleton]
    cases known : stop.zoom? with
    | none =>
      rw [zoomsOf_concat_of_none known]
      omega
    | some z =>
      rw [zoomsOf_concat known]
      split
      · omega
      · rw [List.length_append, List.length_singleton]
        omega

theorem exists_first_of_zoomsOf {stops : List (Stop ν)} {zooms later : List ν} {z : ν}
    (split : zoomsOf stops = zooms ++ z :: later) :
    ∃ before stop after, stops = before ++ stop :: after ∧ zoomsOf before = zooms ∧
      stop.zoom? = some z := by
  -- from the end, as the zooms are those of all stops but the last and perhaps one more
  induction stops using List.reverseRecOn generalizing later with
  | nil => simp [zoomsOf] at split
  | append_singleton stops last ih =>
    have earlier {later : List ν} (split : zoomsOf stops = zooms ++ z :: later) :
        ∃ before stop after, stops ++ [last] = before ++ stop :: after ∧ zoomsOf before = zooms ∧
          stop.zoom? = some z := by
      obtain ⟨before, stop, after, rfl, found⟩ := ih split
      exact ⟨before, stop, after ++ [last], by simp, found⟩
    cases known : last.zoom? with
    | none => exact earlier ((zoomsOf_concat_of_none known stops).symm.trans split)
    | some y =>
      rw [zoomsOf_concat known] at split
      split at split
      · exact earlier split
      · rcases List.eq_nil_or_concat later with rfl | ⟨later, y', rfl⟩
        · obtain ⟨same, rfl⟩ := List.append_singleton_inj.mp split
          exact ⟨stops, last, [], rfl, same, known⟩
        · have split : zoomsOf stops ++ [y] = (zooms ++ z :: later) ++ [y'] := by simpa using split
          exact earlier (List.append_singleton_inj.mp split).1

theorem exists_of_mem_zoomsOf {stops : List (Stop ν)} {z : ν} (mem : z ∈ zoomsOf stops) :
    ∃ stop ∈ stops, stop.zoom? = some z := by
  obtain ⟨zooms, later, split⟩ := List.append_of_mem mem
  obtain ⟨before, stop, after, rfl, _, known⟩ := exists_first_of_zoomsOf split
  exact ⟨stop, by simp, known⟩

theorem exists_of_stopsAtZoom {stops before after : List (Stop ν)} {inner : Stop ν} {z : ν}
    (split : stopsAtZoom z stops = before ++ inner :: after) :
    ∃ before' stop after', stops = before' ++ stop :: after' ∧ stopsAtZoom z before' = before ∧
      stop.atZoom? z = some inner := by
  obtain ⟨left, right, rfl, isBefore, rest⟩ := List.filterMap_eq_append_iff.mp split
  obtain ⟨others, stop, after', rfl, skipped, kept, _⟩ := List.filterMap_eq_cons_iff.mp rest
  refine ⟨left ++ others, stop, after', by simp, ?_, kept⟩
  rw [stopsAtZoom, List.filterMap_append, isBefore, List.filterMap_eq_nil_iff.mpr skipped,
    List.append_nil]

theorem PropertySpec.index?_of_resolveDefault {s : PropertySpec ν} {given : Option (Json ν)}
    {e : FunctionError} (refused : s.resolveDefault given = .error e) : e.index? = none := by
  unfold resolveDefault at refused
  split at refused
  · split at refused
    · cases refused
    · split at refused
      · cases refused
      · cases Except.error.inj refused
        rfl
  · cases refused

namespace CompiledFunction

variable {s : PropertySpec ν} {p : FunctionParameters ν} {e : FunctionError}

omit [Scalar ν] in
theorem compileGroups_eq_error
    {compile : List (Stop ν) → Except FunctionError (CompiledFunction ν)}
    {groups : List (ν × List (Stop ν))} (refused : compileGroups compile groups = .error e) :
    ∃ g ∈ groups, compile g.2 = .error e := by
  induction groups with
  | nil => cases refused
  | cons g rest ih =>
    rw [compileGroups] at refused
    cases first : compile g.2 with
    | error e' =>
      rw [first] at refused
      cases Except.error.inj refused
      exact ⟨g, by simp, first⟩
    | ok f =>
      rw [first] at refused
      cases later : compileGroups compile rest with
      | ok more => rw [later] at refused; cases refused
      | error e' =>
        rw [later] at refused
        cases Except.error.inj refused
        obtain ⟨h, mem, refused⟩ := ih later
        exact ⟨h, List.mem_cons_of_mem _ mem, refused⟩

/-- The stop for which parameters are refused, with the stops before it, and the error.  The place
in the error is that of the stop, or of its zoom among the zooms, or that within the stops of its
zoom. -/
inductive Refusal (s : PropertySpec ν) :
    FunctionParameters ν → List (Stop ν) → Stop ν → FunctionError → Prop
  | simple {p : FunctionParameters ν} {before : List (Stop ν)} {stop : Stop ν} {e : FunctionError} :
    p.isComposite = false → StopTable.Fault s before stop before.length e →
    Refusal s p before stop e
  | key {p : FunctionParameters ν} {before : List (Stop ν)} {stop : Stop ν} : p.isComposite = true →
    stop.zoomAndValue? = none → Refusal s p before stop (.malformedCompositeKey before.length)
  | zoom {p : FunctionParameters ν} {before : List (Stop ν)} {stop other : Stop ν} {y z : ν} :
    p.isComposite = true → stop.zoom? = some z → other ∈ before → other.zoom? = some y → z < y →
    Refusal s p before stop (.unsortedStops (zoomsOf before).length)
  | group {p : FunctionParameters ν} {before : List (Stop ν)} {stop inner : Stop ν} {z : ν}
    {e : FunctionError} : p.isComposite = true → stop.atZoom? z = some inner →
    Refusal s (p.atZoom z) (stopsAtZoom z before) inner e → Refusal s p before stop e

theorem index_of_fault {before : List (Stop ν)} {stop : Stop ν} {i j : Nat}
    (fault : StopTable.Fault s before stop i e) (indexed : e.index? = some j) : j = i := by
  cases fault <;> exact (Option.some.inj indexed).symm

/-- The place in an error is not beyond the stop. -/
theorem Refusal.index_le {before : List (Stop ν)} {stop : Stop ν} {i : Nat}
    (refusal : Refusal s p before stop e) (indexed : e.index? = some i) : i ≤ before.length := by
  induction refusal with
  | simple _ fault => exact Nat.le_of_eq (index_of_fault fault indexed)
  | key => exact Nat.le_of_eq (Option.some.inj indexed).symm
  | @zoom _ before =>
    rw [← Option.some.inj indexed]
    exact length_zoomsOf_le before
  | @group _ before _ _ z _ _ _ _ ih =>
    have counted : (stopsAtZoom z before).length ≤ before.length := List.length_filterMap_le _ _
    have inside := ih indexed
    omega

omit [Scalar ν] in
theorem index?_of_ruleOf (refused : ruleOf p s = .error e) : e.index? = none := by
  unfold ruleOf at refused
  split at refused
  · unfold FunctionType.ofName at refused
    split at refused <;> cases refused
    rfl
  · cases refused

omit [Scalar ν] in
theorem index?_of_spaceOf (refused : spaceOf p = .error e) : e.index? = none := by
  unfold spaceOf at refused
  split at refused
  · cases refused
  · split at refused
    · cases refused
    · cases Except.error.inj refused
      rfl

theorem ruled_of_refused (refused : compile p s = .error e) (indexed : e.index?.isSome = true) :
    ∃ type space, ruleOf p s = .ok type ∧ spaceOf p = .ok space := by
  rw [compile, compileWithin] at refused
  cases ruled : ruleOf p s with
  | error e' =>
    rw [ruled] at refused
    cases Except.error.inj refused
    rw [index?_of_ruleOf ruled] at indexed
    cases indexed
  | ok type =>
    cases spaced : spaceOf p with
    | error e' =>
      rw [ruled, spaced] at refused
      cases Except.error.inj refused
      rw [index?_of_spaceOf spaced] at indexed
      cases indexed
    | ok space => exact ⟨type, space, rfl, rfl⟩

theorem exists_refusal_of_simple (simple : p.isComposite = false)
    (refused : compile p s = .error e) (indexed : e.index?.isSome = true) :
    ∃ before stop after, p.stops = before ++ stop :: after ∧ Refusal s p before stop e := by
  obtain ⟨type, space, ruled, spaced⟩ := ruled_of_refused refused indexed
  rw [compile, compileWithin_of_not_isComposite s simple, ruled, spaced] at refused
  have refused : compileSimple p s type space = .error e := refused
  have made : StopTable.make s type p.stops = .error e := by
    unfold compileSimple at refused
    split at refused
    · rename_i e' unmade
      cases Except.error.inj refused
      unfold StopFunction.make at unmade
      split at unmade
      · rename_i e' untabled
        exact Except.error.inj unmade ▸ untabled
      · split at unmade
        · rename_i unresolved
          cases Except.error.inj unmade
          rw [PropertySpec.index?_of_resolveDefault unresolved] at indexed
          cases indexed
        · cases unmade
    · split at refused <;> cases refused
  obtain ⟨before, stop, after, split, fault⟩ := StopTable.make_eq_error made indexed
  exact ⟨before, stop, after, split, .simple simple fault⟩

/-- A composite function is refused for a stop without zoom or value, for a zoom below the one
before, or for what its groups are refused for. -/
theorem compileComposite_eq_error {space : ColorSpace}
    {compile : List (Stop ν) → Except FunctionError (CompiledFunction ν)}
    (refused : compileComposite p s space compile = .error e) (indexed : e.index?.isSome = true) :
    regroup 0 [] p.stops = .error e ∨ ∃ groups, regroup 0 [] p.stops = .ok groups ∧
      ((∃ i, descent? 0 (groups.map (·.1)) = some i ∧ e = .unsortedStops i) ∨
        ∃ g ∈ groups, compile g.2 = .error e) := by
  unfold compileComposite at refused
  split at refused
  · rename_i e' unkeyed
    exact Or.inl (Except.error.inj refused ▸ unkeyed)
  · rename_i groups regrouped
    refine Or.inr ⟨groups, regrouped, ?_⟩
    split at refused
    · rename_i i descends
      exact Or.inl ⟨i, descends, (Except.error.inj refused).symm⟩
    · right
      split at refused
      · rename_i e' ungrouped
        exact compileGroups_eq_error (Except.error.inj refused ▸ ungrouped)
      · split at refused
        · rename_i unresolved
          cases Except.error.inj refused
          rw [PropertySpec.index?_of_resolveDefault unresolved] at indexed
          cases indexed
        · cases refused

theorem exists_refusal_of_descent (composite : p.isComposite = true) {i : Nat}
    (descends : descent? 0 (zoomsOf p.stops) = some i) :
    ∃ before stop after, p.stops = before ++ stop :: after ∧
      Refusal s p before stop (.unsortedStops i) := by
  obtain ⟨zooms, y, z, later, split, below, rfl⟩ := descent?_eq_some descends
  have split : zoomsOf p.stops = (zooms ++ [y]) ++ z :: later := by simp [split]
  obtain ⟨before, stop, after, whole, counted, known⟩ := exists_first_of_zoomsOf split
  have appeared : y ∈ zoomsOf before := by simp [counted]
  obtain ⟨other, mem, earlier⟩ := exists_of_mem_zoomsOf appeared
  have refusal : Refusal s p before stop (.unsortedStops (zoomsOf before).length) :=
    .zoom composite known mem earlier below
  have place : (zoomsOf before).length = 0 + zooms.length + 1 := by simp [counted]
  exact ⟨before, stop, after, whole, place ▸ refusal⟩

theorem exists_refusal_of_group (composite : p.isComposite = true) {z : ν}
    (inside : ∃ before inner after, stopsAtZoom z p.stops = before ++ inner :: after ∧
      Refusal s (p.atZoom z) before inner e) :
    ∃ before stop after, p.stops = before ++ stop :: after ∧ Refusal s p before stop e := by
  obtain ⟨before, inner, after, split, refusal⟩ := inside
  obtain ⟨before', stop, after', whole, rfl, kept⟩ := exists_of_stopsAtZoom split
  exact ⟨before', stop, after', whole, .group composite kept refusal⟩

section Ordered

variable [Scalar.Ordered ν]

theorem exists_refusal_of_composite (free : StopsNaNFree p.stops) (composite : p.isComposite = true)
    (ofGroup : ∀ groups, regroup 0 [] p.stops = .ok groups → ∀ g ∈ groups,
      compile (groupParameters p g.2) s = .error e →
        ∃ before stop after, g.2 = before ++ stop :: after ∧
          Refusal s (groupParameters p g.2) before stop e)
    (refused : compile p s = .error e) (indexed : e.index?.isSome = true) :
    ∃ before stop after, p.stops = before ++ stop :: after ∧ Refusal s p before stop e ∧
      ((∃ other ∈ p.stops, other.zoomAndValue? = none) → e.index? = some before.length) := by
  obtain ⟨type, space, ruled, spaced⟩ := ruled_of_refused refused indexed
  rw [compile, compileWithin_of_isComposite s composite (Nat.le_refl _), ruled, spaced] at refused
  rcases compileComposite_eq_error refused indexed with
    unkeyed | ⟨groups, regrouped, later⟩
  · obtain ⟨before, stop, after, split, unknown, rfl⟩ := regroup_eq_error [] unkeyed
    exact ⟨before, stop, after, split, .key composite unknown, fun _ => rfl⟩
  · obtain ⟨haveZooms, rfl⟩ := groups_eq_of_regroup free regrouped
    have refusal : ∃ before stop after, p.stops = before ++ stop :: after ∧
        Refusal s p before stop e := by
      rcases later with ⟨i, descends, rfl⟩ | ⟨g, mem, refused⟩
      · rw [map_fst_stopsAtZoom] at descends
        exact exists_refusal_of_descent composite descends
      · rw [compileWithin_eq_compile s (keyDepth_group_le regrouped mem (Nat.le_refl _))] at refused
        have inside := ofGroup _ regrouped g mem refused
        obtain ⟨zoom, _, rfl⟩ := List.mem_map.mp mem
        exact exists_refusal_of_group composite inside
    obtain ⟨before, stop, after, split, refusal⟩ := refusal
    refine ⟨before, stop, after, split, refusal, ?_⟩
    intro unkeyed
    obtain ⟨other, mem, unknown⟩ := unkeyed
    obtain ⟨zoom, value, known⟩ := haveZooms other mem
    cases unknown.symm.trans known

/-- A definition that is refused with a place is refused for one of its stops.  The place is not
beyond that stop; and it is the place of that stop if the function has one input, or if there is a
stop that has no zoom or no value. -/
theorem exists_refusal_of_compile_error (free : StopsNaNFree p.stops)
    (refused : compile p s = .error e) {i : Nat} (indexed : e.index? = some i) :
    ∃ before stop after, p.stops = before ++ stop :: after ∧ Refusal s p before stop e ∧
      i ≤ before.length ∧
      (p.isComposite = false ∨ (∃ other ∈ p.stops, other.zoomAndValue? = none) →
        i = before.length) := by
  have isSome : e.index?.isSome = true := by rw [indexed]; rfl
  induction depth : FunctionParameters.keyDepth p.stops using Nat.strongRecOn generalizing p with
  | ind n ih =>
    cases shape : p.isComposite with
    | false =>
      obtain ⟨before, stop, after, split, refusal⟩ := exists_refusal_of_simple shape refused isSome
      refine ⟨before, stop, after, split, refusal, refusal.index_le indexed, fun _ => ?_⟩
      cases refusal with
      | simple _ fault => exact index_of_fault fault indexed
      | key composite => cases shape.symm.trans composite
      | zoom composite => cases shape.symm.trans composite
      | group composite => cases shape.symm.trans composite
    | true =>
      have ofGroup : ∀ groups, regroup 0 [] p.stops = .ok groups → ∀ g ∈ groups,
          compile (groupParameters p g.2) s = .error e →
            ∃ before stop after, g.2 = before ++ stop :: after ∧
              Refusal s (groupParameters p g.2) before stop e := by
        intro groups regrouped g mem refused
        have less := keyDepth_group_le regrouped mem (Nat.le_of_eq depth)
        have positive : n ≠ 0 := by
          rintro rfl
          cases (regroup_of_keyDepth_eq_zero shape depth).symm.trans regrouped
        obtain ⟨before, stop, after, split, refusal, _⟩ :=
          ih _ (by omega) (free.group regrouped mem) refused rfl
        exact ⟨before, stop, after, split, refusal⟩
      obtain ⟨before, stop, after, split, refusal, named⟩ :=
        exists_refusal_of_composite free shape ofGroup refused isSome
      refine ⟨before, stop, after, split, refusal, refusal.index_le indexed, ?_⟩
      rintro (simple | unkeyed)
      · cases simple
      · exact Option.some.inj (indexed.symm.trans (named unkeyed))

end Ordered

def descendingHeights : FunctionParameters Float where
  typeName := some "exponential"
  property := none
  base := none
  colorSpace := none
  default := none
  stops := [⟨.int 5, .int 1⟩, ⟨.int 0, .int 2⟩]

theorem exists_refusal_of_descendingHeights :
    compile descendingHeights (.ofType "number") = .error (.unsortedStops 1) ∧
      ∃ before stop after, descendingHeights.stops = before ++ stop :: after ∧
        Refusal (.ofType "number") descendingHeights before stop (.unsortedStops 1) ∧
        1 = before.length := by
  have refused : compile descendingHeights (.ofType "number") = .error (.unsortedStops 1) := rfl
  have free : StopsNaNFree descendingHeights.stops := by
    intro stop mem
    rcases List.mem_pair.mp mem with rfl | rfl
    · exact Json.nanFree_int 5
    · exact Json.nanFree_int 0
  obtain ⟨before, stop, after, split, refusal, _, named⟩ :=
    exists_refusal_of_compile_error free refused rfl
  exact ⟨refused, before, stop, after, split, refusal, named (Or.inl rfl)⟩

def unknownColor : FunctionParameters Float where
  typeName := some "exponential"
  property := some "p"
  base := none
  colorSpace := none
  default := none
  stops := [⟨.obj [("value", .int 0), ("zoom", .int 0)], .str "red"⟩,
    ⟨.obj [("value", .int 0), ("zoom", .int 5)], .str "nope"⟩]

/-- The second stop is the only one of its zoom, and so the error names the first one, whose output
is another. -/
theorem unknownColor_names_first_stop :
    compile unknownColor (.ofType "color") =
        .error (.invalidStopOutput 0 (Json.str "nope" : Json Float).render "color") ∧
      unknownColor.stops[0]?.map (·.output.render) = some (Json.str "red" : Json Float).render ∧
      (Json.str "red" : Json Float).render ≠ (Json.str "nope" : Json Float).render :=
  ⟨rfl, rfl, by decide⟩

end CompiledFunction

end MapStyle
