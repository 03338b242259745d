import Mathlib.Data.List.Forall2
import MapStyle.Proofs.Interpolation.Search
import MapStyle.Proofs.StopFunction.Nesting

/-!
# Functions of zoom and property

What a composite function is made of when its parameters are accepted: ascending zooms, and for each
of them the function that the stops of that zoom make on their own.
-/

set_option autoImplicit false

namespace MapStyle

variable {ν : Type} [Scalar ν]

/-- Numbers of which none is below the one before, and none equals another, ascend. -/
theorem pairwise_lt_of_descent?_eq_none [Scalar.Ordered ν] {i : Nat} {xs : List ν}
    (noDescent : descent? i xs = none) (numbers : ∀ x ∈ xs, (x == x) = true)
    (distinct : xs.Pairwise fun x y => (x == y) = false) : xs.Pairwise (· < ·) := by
  induction xs generalizing i with
  | nil => exact .nil
  | cons x rest ih =>
    cases rest with
    | nil => exact List.pairwise_singleton _ _
    | cons y rest =>
      rw [descent?] at noDescent
      split at noDescent
      · cases noDescent
      · rename_i notBelow
        have later := ih noDescent (fun z mem => numbers z (List.mem_cons_of_mem _ mem))
          (List.pairwise_cons.mp distinct).2
        have lt : x < y := Scalar.lt_of_not_lt_of_not_beq (numbers x (by simp))
          (numbers y (by simp)) notBelow ((List.pairwise_cons.mp distinct).1 y (by simp))
        refine List.pairwise_cons.mpr ⟨?_, later⟩
        intro z mem
        rcases List.mem_cons.mp mem with rfl | mem
        · exact lt
        · exact Scalar.lt_trans lt ((List.pairwise_cons.mp later).1 z mem)

theorem descent?_eq_none_of_pairwise_lt [Scalar.Ordered ν] {xs : List ν}
    (ascending : xs.Pairwise (· < ·)) (i : Nat) : descent? i xs = none := by
  induction xs generalizing i with
  | nil => rfl
  | cons x rest ih =>
    obtain ⟨first, later⟩ := List.pairwise_cons.mp ascending
    cases rest with
    | nil => rfl
    | cons y rest =>
      have lt : x < y := first y (List.mem_cons_self ..)
      have notBelow : ¬ y < x := fun below => Scalar.lt_irrefl x (Scalar.lt_trans lt below)
      rw [descent?, if_neg notBelow]
      exact ih later (i + 1)

namespace CompiledFunction

omit [Scalar ν] in
theorem compileGroups_eq_ok
    {compile : List (Stop ν) → Except FunctionError (CompiledFunction ν)}
    {groups : List (ν × List (Stop ν))} {stops : List (ν × CompiledFunction ν)}
    (compiled : compileGroups compile groups = .ok stops) :
    stops.map (·.1) = groups.map (·.1) ∧
      ∀ (i : Nat) (g : ν × List (Stop ν)), groups[i]? = some g →
        ∃ f, stops[i]? = some (g.1, f) ∧ compile g.2 = .ok f := by
  induction groups generalizing stops with
  | nil =>
    obtain rfl := Except.ok.inj compiled
    exact ⟨rfl, by simp⟩
  | cons g rest ih =>
    rw [compileGroups] at compiled
    cases first : compile g.2 with
    | error e => rw [first] at compiled; cases compiled
    | ok f =>
      rw [first] at compiled
      cases later : compileGroups compile rest with
      | error e => rw [later] at compiled; cases compiled
      | ok more =>
        rw [later] at compiled
        obtain rfl := Except.ok.inj compiled
        obtain ⟨zooms, each⟩ := ih later
        refine ⟨by simp [zooms], ?_⟩
        intro i h found
        cases i with
        | zero =>
          obtain rfl := Option.some.inj found
          exact ⟨f, rfl, first⟩
        | succ i => exact each i h (by simpa using found)

omit [Scalar ν] in
theorem exists_compileGroups
    (compile : List (Stop ν) → Except FunctionError (CompiledFunction ν))
    (P : ν → CompiledFunction ν → Prop) {groups : List (ν × List (Stop ν))}
    (each : ∀ g ∈ groups, ∃ f, compile g.2 = .ok f ∧ P g.1 f) :
    ∃ stops, compileGroups compile groups = .ok stops ∧
      List.Forall₂ (fun g stop => stop.1 = g.1 ∧ P g.1 stop.2) groups stops := by
  induction groups with
  | nil => exact ⟨[], rfl, .nil⟩
  | cons g rest ih =>
    obtain ⟨f, compiled, holds⟩ := each g (List.mem_cons_self ..)
    obtain ⟨more, later, hold⟩ := ih fun h mem => each h (List.mem_cons_of_mem _ mem)
    exact ⟨(g.1, f) :: more, by simp only [compileGroups, compiled, later], .cons ⟨rfl, holds⟩ hold⟩

theorem evaluateAt_eq (env : Env ν) (stops : List (ν × CompiledFunction ν)) (i : Nat) :
    evaluateAt env stops i = stops[i]?.bind fun stop => stop.2.evaluate env := by
  induction stops generalizing i with
  | nil => rfl
  | cons stop rest ih =>
    cases i with
    | zero => rfl
    | succ i =>
      rw [evaluateAt, ih]
      rfl

/-- What accepted parameters of zoom and value make. -/
structure CompositeParts (p : FunctionParameters ν) (s : PropertySpec ν) (f : CompiledFunction ν)
    where
  groups : List (ν × List (Stop ν))
  stops : List (ν × CompiledFunction ν)
  space : ColorSpace
  fallback : Option (Value ν)
  eq_composite : f = .composite stops fallback space s
  regrouped : regroup 0 [] p.stops = .ok groups
  noDescent : descent? 0 (groups.map (·.1)) = none
  resolved : ∃ default, s.resolveDefault p.default = .ok default ∧
    fallback = default.or (s.default.map .ofJson)
  zooms : stops.map (·.1) = groups.map (·.1)
  compiled : ∀ (i : Nat) (g : ν × List (Stop ν)), groups[i]? = some g →
    ∃ f, stops[i]? = some (g.1, f) ∧ compile (groupParameters p g.2) s = .ok f

theorem compositeParts_of_compile {p : FunctionParameters ν} {s : PropertySpec ν}
    {f : CompiledFunction ν} (compiled : compile p s = .ok f) (composite : p.isComposite = true) :
    Nonempty (CompositeParts p s f) := by
  rw [compile, compileWithin_of_isComposite s composite (Nat.le_refl _)] at compiled
  cases ruled : ruleOf p s with
  | error e => rw [ruled] at compiled; cases compiled
  | ok type =>
    rw [ruled] at compiled
    cases spaced : spaceOf p with
    | error e => rw [spaced] at compiled; cases compiled
    | ok space =>
      simp only [spaced, Except.bind] at compiled
      unfold compileComposite at compiled
      cases regrouped : regroup 0 [] p.stops with
      | error e => rw [regrouped] at compiled; cases compiled
      | ok groups =>
        simp only [regrouped] at compiled
        cases noDescent : descent? 0 (groups.map (·.1)) with
        | some i => rw [noDescent] at compiled; cases compiled
        | none =>
          simp only [noDescent] at compiled
          split at compiled
          · cases compiled
          · rename_i stops grouped
            split at compiled
            · cases compiled
            · rename_i default resolved
              obtain ⟨zooms, each⟩ := compileGroups_eq_ok grouped
              refine ⟨⟨groups, stops, space, _, (Except.ok.inj compiled).symm, regrouped, noDescent,
                ⟨default, resolved, rfl⟩, zooms, ?_⟩⟩
              intro i g found
              obtain ⟨h, isStop, made⟩ := each i g found
              have inside : g ∈ groups := List.mem_of_getElem? found
              rw [compileWithin_eq_compile s
                (keyDepth_group_le regrouped inside (Nat.le_refl _))] at made
              exact ⟨h, isStop, made⟩

theorem compileSimple_of_compile {p : FunctionParameters ν} {s : PropertySpec ν}
    {f : CompiledFunction ν} (compiled : compile p s = .ok f) (simple : p.isComposite = false) :
    ∃ type space, ruleOf p s = .ok type ∧ spaceOf p = .ok space ∧
      compileSimple p s type space = .ok f := by
  rw [compile, compileWithin_of_not_isComposite s simple] at compiled
  cases ruled : ruleOf p s with
  | error e => rw [ruled] at compiled; cases compiled
  | ok type =>
    rw [ruled] at compiled
    cases spaced : spaceOf p with
    | error e => rw [spaced] at compiled; cases compiled
    | ok space =>
      rw [spaced] at compiled
      exact ⟨type, space, rfl, rfl, compiled⟩

theorem CompositeParts.stops_ne_nil {p : FunctionParameters ν} {s : PropertySpec ν}
    {f : CompiledFunction ν} (parts : CompositeParts p s f) (composite : p.isComposite = true) :
    parts.stops ≠ [] := by
  have some : p.stops ≠ [] := by
    intro empty
    simp [FunctionParameters.isComposite, empty] at composite
  have groups := regroup_ne_nil parts.regrouped (Or.inr some)
  intro empty
  have noZooms := parts.zooms
  rw [empty] at noZooms
  exact groups (List.map_eq_nil_iff.mp noZooms.symm)

theorem CompositeParts.exists_group {p : FunctionParameters ν} {s : PropertySpec ν}
    {f : CompiledFunction ν} (parts : CompositeParts p s f) {stop : ν × CompiledFunction ν}
    (mem : stop ∈ parts.stops) :
    ∃ g ∈ parts.groups, compile (groupParameters p g.2) s = .ok stop.2 := by
  obtain ⟨i, found⟩ := List.getElem?_of_mem mem
  have inside : i < parts.stops.length := (List.getElem?_eq_some_iff.mp found).1
  have lengths : parts.stops.length = parts.groups.length := by
    simpa using congrArg List.length parts.zooms
  obtain ⟨f', isStop, compiled⟩ :=
    parts.compiled i parts.groups[i] (List.getElem?_eq_getElem (by omega))
  obtain rfl := Option.some.inj (found.symm.trans isStop)
  exact ⟨parts.groups[i], List.getElem_mem _, compiled⟩

/-- What holds of functions of one input, and of a composite function if it holds of the functions
of its zooms, holds of every function. -/
theorem compile_induction {s : PropertySpec ν}
    {motive : FunctionParameters ν → CompiledFunction ν → Prop}
    (simple : ∀ p f type space, p.isComposite = false → ruleOf p s = .ok type →
      spaceOf p = .ok space → compileSimple p s type space = .ok f → motive p f)
    (composite : ∀ p f (parts : CompositeParts p s f), p.isComposite = true →
      (∀ stop ∈ parts.stops, ∃ g ∈ parts.groups, motive (groupParameters p g.2) stop.2) →
      motive p f)
    {p : FunctionParameters ν} {f : CompiledFunction ν} (compiled : compile p s = .ok f) :
    motive p f := by
  induction depth : FunctionParameters.keyDepth p.stops using Nat.strongRecOn generalizing p f with
  | ind n ih =>
    cases shape : p.isComposite with
    | false =>
      obtain ⟨type, space, ruled, spaced, made⟩ := compileSimple_of_compile compiled shape
      exact simple p f type space shape ruled spaced made
    | true =>
      obtain ⟨parts⟩ := compositeParts_of_compile compiled shape
      refine composite p f parts shape fun stop mem => ?_
      obtain ⟨g, gMem, made⟩ := parts.exists_group mem
      have positive : n ≠ 0 := by
        intro zero
        have refused := regroup_of_keyDepth_eq_zero shape (depth.trans zero)
        cases refused.symm.trans parts.regrouped
      have less := keyDepth_group_le parts.regrouped gMem (Nat.le_of_eq depth)
      exact ⟨g, gMem, ih _ (by omega) made rfl⟩

end CompiledFunction

end MapStyle
