import MapStyle.Number.Float
import MapStyle.Proofs.Number.Real
import MapStyle.Proofs.StopFunction.Outputs
import MapStyle.Proofs.Typing

/-!
# Composite functions at the zooms of their stops

At a zoom of its stops a composite function yields what the function of that zoom yields: always at
the first and the last zoom, and at the others where the function of the next zoom yields something
too.
-/

set_option autoImplicit false

namespace MapStyle

variable {ν : Type} [Scalar ν]

namespace FunctionParameters

def HasZoom (p : FunctionParameters ν) (z : ν) : Prop :=
  ∃ stop ∈ p.stops, ∃ value, stop.zoomAndValue? = some (z, value)

/-- The parameters of the function of a zoom: the stops of that zoom without it, and no base. -/
def atZoom (p : FunctionParameters ν) (z : ν) : FunctionParameters ν :=
  CompiledFunction.groupParameters p (stopsAtZoom z p.stops)

end FunctionParameters

namespace CompiledFunction

variable [Scalar.Ordered ν] {p : FunctionParameters ν} {s : PropertySpec ν}
  {f : CompiledFunction ν} {z y : ν} {i j : Nat}

namespace CompositeParts

theorem areGroups (parts : CompositeParts p s f) (numbers : ∀ z, p.HasZoom z → (z == z) = true) :
    AreGroups p.stops parts.groups := by
  have regrouped := areGroups_of_regroup areGroups_nil
    (fun stop mem z v known => numbers z ⟨stop, mem, v, known⟩) parts.regrouped
  simpa using regrouped.1

theorem ascending (parts : CompositeParts p s f) (numbers : ∀ z, p.HasZoom z → (z == z) = true) :
    (parts.stops.map (·.1)).Pairwise (· < ·) := by
  have groups := parts.areGroups numbers
  rw [parts.zooms]
  refine pairwise_lt_of_descent?_eq_none parts.noDescent ?_ (List.pairwise_map.mpr groups.distinct)
  intro z mem
  obtain ⟨g, gMem, rfl⟩ := List.mem_map.mp mem
  exact numbers g.1 (groups.occurs g gMem)

theorem compile_atZoom (parts : CompositeParts p s f)
    (numbers : ∀ z, p.HasZoom z → (z == z) = true) {stop : ν × CompiledFunction ν}
    (found : parts.stops[i]? = some stop) : compile (p.atZoom stop.1) s = .ok stop.2 := by
  have groups := parts.areGroups numbers
  have lengths : parts.stops.length = parts.groups.length := by
    simpa using congrArg List.length parts.zooms
  have inside : i < parts.groups.length := lengths ▸ (List.getElem?_eq_some_iff.mp found).1
  obtain ⟨g, isStop, compiled⟩ := parts.compiled i _ (List.getElem?_eq_getElem inside)
  obtain rfl := Option.some.inj (isStop.symm.trans found)
  rwa [groups.eq_stopsAtZoom _ (List.getElem_mem inside)] at compiled

theorem exists_of_hasZoom (parts : CompositeParts p s f)
    (numbers : ∀ z, p.HasZoom z → (z == z) = true) (occurs : p.HasZoom z) :
    ∃ (i : Nat) (stop : ν × CompiledFunction ν), parts.stops[i]? = some stop ∧
      (z == stop.1) = true := by
  obtain ⟨stop, mem, value, known⟩ := occurs
  obtain ⟨group, gMem, same⟩ := (parts.areGroups numbers).covered stop mem z value known
  obtain ⟨i, found⟩ := List.getElem?_of_mem gMem
  obtain ⟨g, isStop, _⟩ := parts.compiled i group found
  exact ⟨i, _, isStop, Scalar.beq_symm same⟩

theorem hasZoom (parts : CompositeParts p s f) (numbers : ∀ z, p.HasZoom z → (z == z) = true)
    {stop : ν × CompiledFunction ν} (found : parts.stops[i]? = some stop) : p.HasZoom stop.1 := by
  have mem : stop.1 ∈ parts.groups.map (·.1) := by
    rw [← parts.zooms]
    exact List.mem_map_of_mem (List.mem_of_getElem? found)
  obtain ⟨g, gMem, eq⟩ := List.mem_map.mp mem
  exact eq ▸ (parts.areGroups numbers).occurs g gMem

theorem lt_of_index_lt (parts : CompositeParts p s f)
    (numbers : ∀ z, p.HasZoom z → (z == z) = true) {a b : ν × CompiledFunction ν}
    (isA : parts.stops[i]? = some a) (isB : parts.stops[j]? = some b) (before : i < j) :
    a.1 < b.1 := by
  obtain ⟨insideA, rfl⟩ := List.getElem?_eq_some_iff.mp isA
  obtain ⟨insideB, rfl⟩ := List.getElem?_eq_some_iff.mp isB
  have ascending := List.pairwise_map.mp (parts.ascending numbers)
  exact List.pairwise_iff_getElem.mp ascending i j insideA insideB before

theorem index_lt_of_lt (parts : CompositeParts p s f)
    (numbers : ∀ z, p.HasZoom z → (z == z) = true) {a b : ν × CompiledFunction ν}
    (isA : parts.stops[i]? = some a) (isB : parts.stops[j]? = some b) (lt : a.1 < b.1) : i < j := by
  rcases Nat.lt_trichotomy i j with before | rfl | after
  · exact before
  · obtain rfl := Option.some.inj (isA.symm.trans isB)
    exact absurd lt (Scalar.lt_irrefl _)
  · have gt := parts.lt_of_index_lt numbers isB isA after
    exact absurd (Scalar.lt_trans lt gt) (Scalar.lt_irrefl _)

theorem exists_near_of_hasZoom (parts : CompositeParts p s f)
    (numbers : ∀ z, p.HasZoom z → (z == z) = true) (occurs : p.HasZoom z) :
    ∃ (i : Nat) (stop : ν × CompiledFunction ν), parts.stops[i]? = some stop ∧
      z ≤ stop.1 ∧ stop.1 ≤ z := by
  obtain ⟨i, stop, found, same⟩ := parts.exists_of_hasZoom numbers occurs
  exact ⟨i, stop, found, Scalar.le_of_beq same, Scalar.le_of_beq (Scalar.beq_symm same)⟩

/-- The place of a zoom that no other is below, or that no other is above, is the first or the
last. -/
theorem first_or_last_of_extreme (parts : CompositeParts p s f)
    (numbers : ∀ z, p.HasZoom z → (z == z) = true) {stop : ν × CompiledFunction ν}
    (found : parts.stops[i]? = some stop) (same : (z == stop.1) = true)
    (extreme : (∀ y, p.HasZoom y → ¬ y < z) ∨ ∀ y, p.HasZoom y → ¬ z < y) :
    i = 0 ∨ parts.stops[i + 1]? = none := by
  have inside : i < parts.stops.length := (List.getElem?_eq_some_iff.mp found).1
  rcases extreme with lowest | highest
  · left
    by_contra notFirst
    have isFirst : parts.stops[0]? = some parts.stops[0] := List.getElem?_eq_getElem (by omega)
    have below := parts.lt_of_index_lt numbers isFirst found (by omega)
    exact lowest _ (parts.hasZoom numbers isFirst)
      (Scalar.lt_of_lt_of_le below (Scalar.le_of_beq (Scalar.beq_symm same)))
  · right
    by_contra notLast
    obtain ⟨upper, next⟩ := Option.ne_none_iff_exists'.mp notLast
    have above := parts.lt_of_index_lt numbers found next (Nat.lt_succ_self i)
    exact highest _ (parts.hasZoom numbers next)
      (Scalar.lt_of_le_of_lt (Scalar.le_of_beq same) above)

/-- The place of a zoom between others is not the first, and the next place is that of the next
zoom. -/
theorem exists_next_of_between (parts : CompositeParts p s f)
    (numbers : ∀ z, p.HasZoom z → (z == z) = true) {stop : ν × CompiledFunction ν}
    (found : parts.stops[i]? = some stop) (same : (z == stop.1) = true)
    (lower : ∃ y, p.HasZoom y ∧ y < z) (upper : ∃ y, p.HasZoom y ∧ z < y) :
    i ≠ 0 ∧ ∃ next, parts.stops[i + 1]? = some next ∧ z < next.1 ∧
      ∀ x, p.HasZoom x → z < x → ¬ x < next.1 := by
  have upward : z ≤ stop.1 := Scalar.le_of_beq same
  have downward : stop.1 ≤ z := Scalar.le_of_beq (Scalar.beq_symm same)
  have after {v : ν} {k : Nat} {near : ν × CompiledFunction ν}
      (isNear : parts.stops[k]? = some near) (le : v ≤ near.1) (zv : z < v) : i < k :=
    parts.index_lt_of_lt numbers found isNear
      (Scalar.lt_of_lt_of_le (Scalar.lt_of_le_of_lt downward zv) le)
  obtain ⟨x, xOccurs, xz⟩ := lower
  obtain ⟨w, wOccurs, zw⟩ := upper
  obtain ⟨k, below, belowFound, _, belowX⟩ := parts.exists_near_of_hasZoom numbers xOccurs
  obtain ⟨j, above, aboveFound, wAbove, _⟩ := parts.exists_near_of_hasZoom numbers wOccurs
  have notFirst : k < i := parts.index_lt_of_lt numbers belowFound found
    (Scalar.lt_of_lt_of_le (Scalar.lt_of_le_of_lt belowX xz) upward)
  have notLast : i < j := after aboveFound wAbove zw
  have inside : j < parts.stops.length := (List.getElem?_eq_some_iff.mp aboveFound).1
  have isNext : parts.stops[i + 1]? = some parts.stops[i + 1] :=
    List.getElem?_eq_getElem (by omega)
  have ascends := parts.lt_of_index_lt numbers found isNext (Nat.lt_succ_self i)
  refine ⟨by omega, _, isNext, Scalar.lt_of_le_of_lt upward ascends, ?_⟩
  intro v vOccurs zv vNext
  obtain ⟨n, near, isNear, vNear, nearV⟩ := parts.exists_near_of_hasZoom numbers vOccurs
  have later : i < n := after isNear vNear zv
  have before : n < i + 1 := parts.index_lt_of_lt numbers isNear isNext
    (Scalar.lt_of_le_of_lt nearV vNext)
  omega

end CompositeParts

theorem CompositeParts.evaluate_at_label (parts : CompositeParts p s f)
    (numbers : ∀ z, p.HasZoom z → (z == z) = true) {l : ν} {g : CompiledFunction ν}
    (found : parts.stops[i]? = some (l, g)) (same : (z == l) = true) {env : Env ν}
    (zoomed : env.globals.zoom = some z)
    (holds : ∀ a b upper, g.evaluate env = some a →
      s.blend parts.space a b (Curve.linear.factor z l upper) = a) :
    f.evaluate env =
      if i = 0 then g.evaluate env
      else
        match parts.stops[i + 1]? with
        | none => g.evaluate env
        | some (_, next) => if (next.evaluate env).isSome then g.evaluate env else none := by
  have label : (parts.stops.map (·.1))[i]? = some l := by
    rw [List.getElem?_map, found]
    rfl
  have here : evaluateAt env parts.stops i = g.evaluate env := by
    rw [evaluateAt_eq, found]
    rfl
  rw [congrArg (evaluate env) parts.eq_composite, evaluate, zoomed]
  simp only [selectStop_at_label (parts.ascending numbers) label same]
  by_cases first : i = 0
  · subst first
    simpa using here
  · simp only [if_neg first, List.getElem?_map]
    cases next : parts.stops[i + 1]? with
    | none => simpa using here
    | some upper =>
      have there : evaluateAt env parts.stops (i + 1) = upper.2.evaluate env := by
        rw [evaluateAt_eq, next]
        rfl
      simp only [Option.map_some, here, there]
      cases value : g.evaluate env with
      | none => simp
      | some a =>
        cases upperValue : upper.2.evaluate env with
        | none => rfl
        | some b => simp [holds a b upper.1 value]

end CompiledFunction

namespace Value

theorem ofJson_ty_ne (j : Json ν) : (ofJson j).ty ≠ .color ∧ (ofJson j).ty ≠ .colorArray := by
  cases j <;> exact ⟨nofun, nofun⟩

end Value

namespace PropertySpec

variable {s : PropertySpec ν}

theorem blend_ty (space : ColorSpace) (a b : Value ν) (t : ν) :
    (s.blend space a b t).ty = a.ty := by
  unfold blend
  split
  · exact a.blend_ty space b t
  · rfl

theorem yields_of_number (number : s.typeName = "number") :
    s.Yields fun v => v.ty ≠ .color ∧ v.ty ≠ .colorArray where
  parsed j v parsed := by
    have plain : s.hasParser = false := by simp [hasParser, number]
    obtain rfl := Option.some.inj ((parseValue?_of_not_hasParser plain j).symm.trans parsed)
    exact Value.ofJson_ty_ne j
  identity j v identity := by
    have itself : v = .ofJson j := by
      simp only [identity?, number] at identity
      split at identity
      · cases identity
      · simp at identity
        exact identity.2.symm
    rw [itself]
    exact Value.ofJson_ty_ne j
  blend space a b t ofA _ := by rwa [blend_ty]

end PropertySpec

namespace CompiledFunction

variable {p : FunctionParameters ν} {s : PropertySpec ν} {f : CompiledFunction ν} {z : ν}

/-- At a zoom of its stops a composite function yields what the function of that zoom yields: always
where it is the first or the last zoom, and otherwise if the function of the next zoom yields
something too; if that yields nothing, neither does the composite function. -/
theorem evaluate_at_own_zoom [Scalar.Ordered ν] (compiled : compile p s = .ok f)
    (composite : p.isComposite = true) (numbers : ∀ y, p.HasZoom y → (y == y) = true)
    (exact : s.isInterpolatable = false ∨ s.typeName = "number" ∧ Scalar.Exact ν)
    (occurs : p.HasZoom z) {env : Env ν} (zoomed : env.globals.zoom = some z) :
    ∃ g, compile (p.atZoom z) s = .ok g ∧
      ((∀ y, p.HasZoom y → ¬ y < z) ∨ (∀ y, p.HasZoom y → ¬ z < y) →
        f.evaluate env = g.evaluate env) ∧
      ((∃ y, p.HasZoom y ∧ y < z) → (∃ y, p.HasZoom y ∧ z < y) →
        ∃ y next, p.HasZoom y ∧ z < y ∧ (∀ x, p.HasZoom x → z < x → ¬ x < y) ∧
          compile (p.atZoom y) s = .ok next ∧
          f.evaluate env = if (next.evaluate env).isSome then g.evaluate env else none) := by
  obtain ⟨parts⟩ := compositeParts_of_compile compiled composite
  obtain ⟨i, ⟨l, g⟩, found, same⟩ := parts.exists_of_hasZoom numbers occurs
  have made : compile (p.atZoom z) s = .ok g := by
    have made := parts.compile_atZoom numbers found
    rwa [FunctionParameters.atZoom, ← stopsAtZoom_congr same] at made
  have holds : ∀ a b upper, g.evaluate env = some a →
      s.blend parts.space a b (Curve.linear.factor z l upper) = a := by
    intro a b upper value
    rcases exact with noBlend | ⟨number, exactly⟩
    · simp [PropertySpec.blend, noBlend]
    · obtain ⟨noColor, noColors⟩ :=
        evaluate_yields (PropertySpec.yields_of_number number) made value
      rw [linear_factor_self same, PropertySpec.blend]
      split
      · exact Value.blend_zero parts.space noColor noColors b
      · rfl
  have evaluated := parts.evaluate_at_label numbers found same zoomed holds
  refine ⟨g, made, ?_, ?_⟩
  · intro extreme
    rw [evaluated]
    rcases parts.first_or_last_of_extreme numbers found same extreme with first | last
    · rw [if_pos first]
    · simp only [last, ite_self]
  · intro lower upper
    obtain ⟨notFirst, next, isNext, ascends, nearest⟩ :=
      parts.exists_next_of_between numbers found same lower upper
    refine ⟨next.1, next.2, parts.hasZoom numbers isNext, ascends, nearest,
      parts.compile_atZoom numbers isNext, ?_⟩
    rw [evaluated, if_neg notFirst, isNext]

def sparseNames : FunctionParameters Float where
  typeName := some "categorical"
  property := some "p"
  base := none
  colorSpace := none
  default := none
  stops := [⟨.obj [("value", .str "a"), ("zoom", .int 1)], .str "x"⟩,
    ⟨.obj [("value", .str "a"), ("zoom", .int 2)], .str "y"⟩,
    ⟨.obj [("value", .str "b"), ("zoom", .int 3)], .str "z"⟩]

def firstCategoryAt (zoom : Float) : Env Float :=
  ⟨⟨some zoom, none⟩, some ⟨none, none, [("p", .str "a")]⟩⟩

theorem sparseNames_hasZoom_iff (y : Float) :
    sparseNames.HasZoom y ↔ y = Scalar.ofInt 1 ∨ y = Scalar.ofInt 2 ∨ y = Scalar.ofInt 3 := by
  constructor
  · rintro ⟨stop, mem, v, known⟩
    simp only [sparseNames, List.mem_cons, List.not_mem_nil, or_false] at mem
    rcases mem with rfl | rfl | rfl
    · exact Or.inl (Prod.mk.inj (Option.some.inj known)).1.symm
    · exact Or.inr (Or.inl (Prod.mk.inj (Option.some.inj known)).1.symm)
    · exact Or.inr (Or.inr (Prod.mk.inj (Option.some.inj known)).1.symm)
  · rintro (rfl | rfl | rfl)
    · exact ⟨_, List.mem_cons_self .., _, rfl⟩
    · exact ⟨_, List.mem_cons_of_mem _ (List.mem_cons_self ..), _, rfl⟩
    · exact ⟨_, List.mem_cons_of_mem _ (List.mem_cons_of_mem _ (List.mem_cons_self ..)), _, rfl⟩

noncomputable def ownHeights : FunctionParameters ℝ where
  typeName := some "identity"
  property := some "p"
  base := none
  colorSpace := none
  default := none
  stops := [⟨.obj [("value", .int 0), ("zoom", .int 0)], .int 0⟩,
    ⟨.obj [("value", .int 0), ("zoom", .int 1)], .int 0⟩]

theorem ownHeights_regroup : regroup 0 [] ownHeights.stops =
    .ok [((Scalar.ofInt 0 : ℝ), [⟨.int 0, .int 0⟩]), (Scalar.ofInt 1, [⟨.int 0, .int 0⟩])] := by
  have differ : ((Scalar.ofInt 0 : ℝ) == Scalar.ofInt 1) = false := by
    rw [Bool.eq_false_iff, ne_eq, Scalar.real_beq, Scalar.real_ofInt, Scalar.real_ofInt]
    norm_num
  show Except.ok (addToGroup (Scalar.ofInt 1 : ℝ) _ [(Scalar.ofInt 0, _)]) = _
  rw [addToGroup, differ]
  rfl

theorem ownHeights_compile (default : Option (Json ℝ)) :
    ∃ f, compile ownHeights { PropertySpec.ofType "number" with default := default } = .ok f := by
  have ascend : ¬ (Scalar.ofInt 1 : ℝ) < (Scalar.ofInt 0 : ℝ) := by
    rw [Scalar.real_ofInt, Scalar.real_ofInt]
    norm_num
  rw [compile, compileWithin_of_isComposite _ rfl (Nat.le_refl _)]
  simp only [compileComposite, ownHeights_regroup, descent?, List.map, if_neg ascend]
  exact ⟨_, rfl⟩

theorem evaluate_at_own_zoom_of_names_and_heights :
    (∃ f g y next, compile sparseNames (.ofType "string") = .ok f ∧
      (∀ y, sparseNames.HasZoom y → (y == y) = true) ∧ sparseNames.HasZoom (Scalar.ofInt 2) ∧
      compile (sparseNames.atZoom (Scalar.ofInt 2)) (.ofType "string") = .ok g ∧
      sparseNames.HasZoom y ∧ Scalar.ofInt 2 < y ∧
      compile (sparseNames.atZoom y) (.ofType "string") = .ok next ∧
      f.evaluate (firstCategoryAt (Scalar.ofInt 2)) =
        if (next.evaluate (firstCategoryAt (Scalar.ofInt 2))).isSome then
          g.evaluate (firstCategoryAt (Scalar.ofInt 2)) else none) ∧
    ∃ f g, compile ownHeights (.ofType "number") = .ok f ∧ Scalar.Exact ℝ ∧
      ownHeights.HasZoom (Scalar.ofInt 0) ∧
      compile (ownHeights.atZoom (Scalar.ofInt 0)) (.ofType "number") = .ok g ∧
      f.evaluate ⟨⟨some (Scalar.ofInt 0), none⟩, none⟩ =
        g.evaluate ⟨⟨some (Scalar.ofInt 0), none⟩, none⟩ := by
  constructor
  · have numbers : ∀ y, sparseNames.HasZoom y → (y == y) = true := by
      intro y occurs
      rcases (sparseNames_hasZoom_iff y).mp occurs with rfl | rfl | rfl <;> decide
    have occurs : sparseNames.HasZoom (Scalar.ofInt 2) :=
      (sparseNames_hasZoom_iff _).mpr (Or.inr (Or.inl rfl))
    have compiled : ∃ f, compile sparseNames (.ofType "string") = .ok f := ⟨_, rfl⟩
    obtain ⟨f, compiled⟩ := compiled
    have zoomed : (firstCategoryAt (Scalar.ofInt 2)).globals.zoom = some (Scalar.ofInt 2) := rfl
    obtain ⟨g, made, _, inside⟩ :=
      evaluate_at_own_zoom compiled rfl numbers (Or.inl rfl) occurs zoomed
    obtain ⟨y, next, yOccurs, above, _, nextMade, evaluated⟩ := inside
      ⟨Scalar.ofInt 1, (sparseNames_hasZoom_iff _).mpr (Or.inl rfl), by decide⟩
      ⟨Scalar.ofInt 3, (sparseNames_hasZoom_iff _).mpr (Or.inr (Or.inr rfl)), by decide⟩
    exact ⟨f, g, y, next, compiled, numbers, occurs, made, yOccurs, above, nextMade, evaluated⟩
  · obtain ⟨f, compiled⟩ := ownHeights_compile none
    have zooms : ∀ y, ownHeights.HasZoom y → y = Scalar.ofInt 0 ∨ y = Scalar.ofInt 1 := by
      rintro y ⟨stop, mem, v, known⟩
      simp only [ownHeights, List.mem_cons, List.not_mem_nil, or_false] at mem
      rcases mem with rfl | rfl
      · exact Or.inl (Prod.mk.inj (Option.some.inj known)).1.symm
      · exact Or.inr (Prod.mk.inj (Option.some.inj known)).1.symm
    have occurs : ownHeights.HasZoom (Scalar.ofInt 0) := ⟨_, List.mem_cons_self .., _, rfl⟩
    have zoomed : (⟨⟨some (Scalar.ofInt 0), none⟩, none⟩ : Env ℝ).globals.zoom =
      some (Scalar.ofInt 0) := rfl
    obtain ⟨g, made, extreme, _⟩ := evaluate_at_own_zoom compiled rfl
      (fun y _ => (Scalar.real_beq y y).mpr rfl) (Or.inr ⟨rfl, inferInstance⟩) occurs zoomed
    refine ⟨f, g, compiled, inferInstance, occurs, made, extreme (Or.inl ?_)⟩
    intro y yOccurs below
    rcases zooms y yOccurs with rfl | rfl
    · exact Scalar.lt_irrefl _ below
    · have below : (Scalar.ofInt 1 : ℝ) < (Scalar.ofInt 0 : ℝ) := below
      rw [Scalar.real_ofInt, Scalar.real_ofInt] at below
      norm_num at below

/-- At a zoom in between, the function of the zoom yields a name, and the composite function yields
none, because that of the next zoom does not know the category. -/
theorem sparseNames_yields_nothing_at_own_zoom :
    sparseNames.isComposite = true ∧ sparseNames.HasZoom (Scalar.ofInt 2) ∧
      ∃ f g, compile sparseNames (.ofType "string") = .ok f ∧
        compile (sparseNames.atZoom (Scalar.ofInt 2)) (.ofType "string") = .ok g ∧
        f.evaluate (firstCategoryAt (Scalar.ofInt 2)) = none ∧
        g.evaluate (firstCategoryAt (Scalar.ofInt 2)) = some (.string "y") :=
  ⟨rfl, (sparseNames_hasZoom_iff _).mpr (Or.inr (Or.inl rfl)), _, _, rfl, rfl, rfl, rfl⟩

end CompiledFunction

end MapStyle
