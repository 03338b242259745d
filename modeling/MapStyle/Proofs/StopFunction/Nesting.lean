import MapStyle.Proofs.StopFunction.Regrouping

/-!
# Nested inputs

The inputs of a group are values of the inputs that are regrouped, and so nest less deep.  Hence a
function compiles alike within every depth that its inputs do not exceed.
-/

set_option autoImplicit false

namespace MapStyle

variable {ν : Type} [Scalar ν]

omit [Scalar ν] in
theorem membersValueDepth_eq {value : Json ν} (members : List (String × Json ν))
    (found : members.lookup "value" = some value) :
    membersValueDepth members = value.valueDepth + 1 := by
  induction members with
  | nil => cases found
  | cons m rest ih =>
    obtain ⟨k, j⟩ := m
    rw [List.lookup_cons] at found
    rw [membersValueDepth]
    by_cases same : "value" = k
    · subst same
      obtain rfl : j = value := by simpa using found
      rw [if_pos rfl]
    · have differs : ("value" == k) = false := by simpa using same
      rw [differs] at found
      rw [if_neg same, ih found]

theorem Stop.zoomAndValue?_eq_some {s : Stop ν} {z : ν} {value : Json ν}
    (known : s.zoomAndValue? = some (z, value)) :
    (s.key.get? "zoom").bind Json.asNumber? = some z ∧ s.key.get? "value" = some value := by
  unfold Stop.zoomAndValue? at known
  split at known
  · rename_i zoom found
    cases Option.some.inj known
    exact ⟨zoom, found⟩
  · cases known

theorem Stop.valueDepth_lt {s : Stop ν} {z : ν} {value : Json ν}
    (known : s.zoomAndValue? = some (z, value)) : value.valueDepth < s.key.valueDepth := by
  have found : s.key.get? "value" = some value := (Stop.zoomAndValue?_eq_some known).2
  cases key : s.key with
  | obj members =>
    rw [key] at found
    rw [Json.valueDepth, membersValueDepth_eq members found]
    exact Nat.lt_succ_self _
  | _ => rw [key] at found; cases found

namespace FunctionParameters

omit [Scalar ν] in
theorem keyDepth_le_iff {stops : List (Stop ν)} {n : Nat} :
    keyDepth stops ≤ n ↔ ∀ s ∈ stops, s.key.valueDepth ≤ n := by
  induction stops with
  | nil => simp [keyDepth]
  | cons s rest ih =>
    rw [List.forall_mem_cons, ← ih]
    exact Nat.max_le

/-- The inputs of a group nest less deep than those that are regrouped. -/
theorem keyDepth_lt_of_regroup {stops : List (Stop ν)} {groups : List (ν × List (Stop ν))}
    (regrouped : regroup 0 [] stops = .ok groups) {g : ν × List (Stop ν)} (mem : g ∈ groups)
    {n : Nat} (depth : keyDepth stops ≤ n + 1) : keyDepth g.2 ≤ n := by
  refine keyDepth_le_iff.mpr fun s sMem => ?_
  rcases mem_regroup regrouped mem sMem with ⟨h, none, _⟩ | ⟨t, tMem, z, known⟩
  · cases none
  · have less := Stop.valueDepth_lt known
    have bound := keyDepth_le_iff.mp depth t tMem
    omega

end FunctionParameters

namespace CompiledFunction

omit [Scalar ν] in
theorem compileGroups_congr
    {compile compile' : List (Stop ν) → Except FunctionError (CompiledFunction ν)}
    {groups : List (ν × List (Stop ν))} (same : ∀ g ∈ groups, compile g.2 = compile' g.2) :
    compileGroups compile groups = compileGroups compile' groups := by
  induction groups with
  | nil => rfl
  | cons g rest ih =>
    rw [compileGroups, compileGroups, same g (by simp), ih fun h mem => same h (by simp [mem])]

theorem compileComposite_congr {p : FunctionParameters ν} {s : PropertySpec ν} {space : ColorSpace}
    {compile compile' : List (Stop ν) → Except FunctionError (CompiledFunction ν)}
    (same : ∀ groups, regroup 0 [] p.stops = .ok groups →
      ∀ g ∈ groups, compile g.2 = compile' g.2) :
    compileComposite p s space compile = compileComposite p s space compile' := by
  unfold compileComposite
  cases regrouped : regroup 0 [] p.stops with
  | error e => rfl
  | ok groups => simp only [compileGroups_congr (same groups regrouped)]

/-- A function of inputs that nest no values and seem to have zooms is refused. -/
theorem regroup_of_keyDepth_eq_zero {p : FunctionParameters ν} (composite : p.isComposite = true)
    (flat : FunctionParameters.keyDepth p.stops = 0) :
    regroup 0 [] p.stops = .error (.malformedCompositeKey 0) := by
  cases stops : p.stops with
  | nil => simp [FunctionParameters.isComposite, stops] at composite
  | cons first rest =>
    have bound := FunctionParameters.keyDepth_le_iff.mp (Nat.le_of_eq flat) first (by simp [stops])
    cases known : first.zoomAndValue? with
    | none => rw [regroup, known]
    | some zv =>
      have less := Stop.valueDepth_lt known
      omega

theorem compileWithin_of_not_isComposite {p : FunctionParameters ν} (s : PropertySpec ν)
    (simple : p.isComposite = false) (depth : Nat) :
    compileWithin depth p s =
      (ruleOf p s).bind fun type => (spaceOf p).bind fun space => compileSimple p s type space := by
  rw [compileWithin]
  cases ruleOf p s with
  | error e => rfl
  | ok type =>
    cases spaceOf p with
    | error e => rfl
    | ok space => simp only [simple, Bool.false_eq_true, if_false, Except.bind]

/-- Compiling parameters whose first input has a zoom compiles their groups one level deeper. -/
theorem compileWithin_of_isComposite {p : FunctionParameters ν} (s : PropertySpec ν)
    (composite : p.isComposite = true) {depth : Nat}
    (enough : FunctionParameters.keyDepth p.stops ≤ depth) :
    compileWithin depth p s =
      (ruleOf p s).bind fun _ => (spaceOf p).bind fun space =>
        compileComposite p s space fun stops =>
          compileWithin (depth - 1) (groupParameters p stops) s := by
  rw [compileWithin]
  cases ruleOf p s with
  | error e => rfl
  | ok type =>
    cases spaceOf p with
    | error e => rfl
    | ok space =>
      simp only [composite, if_true, Except.bind]
      cases depth with
      | zero =>
        have refused := regroup_of_keyDepth_eq_zero composite (Nat.le_zero.mp enough)
        simp only [compileComposite, refused]
      | succ depth => rfl

theorem compileWithin_congr_of_groups (s : PropertySpec ν) {p : FunctionParameters ν}
    {depth depth' : Nat} (enough : FunctionParameters.keyDepth p.stops ≤ depth)
    (enough' : FunctionParameters.keyDepth p.stops ≤ depth')
    (same : p.isComposite = true → ∀ groups, regroup 0 [] p.stops = .ok groups → ∀ g ∈ groups,
      compileWithin (depth - 1) (groupParameters p g.2) s =
        compileWithin (depth' - 1) (groupParameters p g.2) s) :
    compileWithin depth p s = compileWithin depth' p s := by
  cases composite : p.isComposite with
  | false =>
    rw [compileWithin_of_not_isComposite s composite, compileWithin_of_not_isComposite s composite]
  | true =>
    rw [compileWithin_of_isComposite s composite enough,
      compileWithin_of_isComposite s composite enough']
    congr
    funext _
    congr
    funext space
    exact compileComposite_congr (same composite)

theorem keyDepth_group_le {p : FunctionParameters ν} {groups : List (ν × List (Stop ν))}
    (regrouped : regroup 0 [] p.stops = .ok groups) {g : ν × List (Stop ν)} (mem : g ∈ groups)
    {depth : Nat} (enough : FunctionParameters.keyDepth p.stops ≤ depth) :
    FunctionParameters.keyDepth (groupParameters p g.2).stops ≤ depth - 1 :=
  FunctionParameters.keyDepth_lt_of_regroup regrouped mem (by omega)

/-- Within every depth that the inputs of the stops do not exceed, parameters compile alike. -/
theorem compileWithin_congr (s : PropertySpec ν) {p : FunctionParameters ν} {depth depth' : Nat}
    (enough : FunctionParameters.keyDepth p.stops ≤ depth)
    (enough' : FunctionParameters.keyDepth p.stops ≤ depth') :
    compileWithin depth p s = compileWithin depth' p s := by
  induction depth generalizing p depth' with
  | zero =>
    refine compileWithin_congr_of_groups s enough enough' fun composite groups regrouped => ?_
    have refused := regroup_of_keyDepth_eq_zero composite (Nat.le_zero.mp enough)
    cases refused.symm.trans regrouped
  | succ depth ih =>
    refine compileWithin_congr_of_groups s enough enough' fun _ groups regrouped g mem => ?_
    exact ih (keyDepth_group_le regrouped mem enough) (keyDepth_group_le regrouped mem enough')

theorem compileWithin_eq_compile (s : PropertySpec ν) {p : FunctionParameters ν} {depth : Nat}
    (enough : FunctionParameters.keyDepth p.stops ≤ depth) :
    compileWithin depth p s = compile p s :=
  compileWithin_congr s enough (Nat.le_refl _)

end CompiledFunction

end MapStyle
