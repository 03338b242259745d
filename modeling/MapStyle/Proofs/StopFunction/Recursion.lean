import MapStyle.Proofs.StopFunction.Holding

/-!
# The recursion of compiling

Compiling a function of zoom and values calls itself for each group of stops.  The stops of a group
are some of those given, with their values for inputs, so that inputs nest less deep with each call:
calls are nested at most as deep as the values of the given inputs, and every compilation ends.
-/

set_option autoImplicit false

namespace MapStyle

variable {ν : Type} [Scalar ν]

/-! ## Groups of stops -/

/-- A stop inside the group of a zoom, made of one of the given stops, which has that zoom: the
value of its input, and its output. -/
def Stop.Inside (zoom : ν) (given inside : Stop ν) : Prop :=
  -- the stop that opens a group has its very zoom, which need not equal itself
  ∃ z, given.zoomAndValue? = some (z, inside.key) ∧ (z = zoom ∨ (zoom == z) = true) ∧
    inside.output = given.output

/-- Some of the given stops, one at least, of one zoom and in their order, with their values for
inputs. -/
structure IsGroupOf (given : List (Stop ν)) (zoom : ν) (group : List (Stop ν)) : Prop where
  ne_nil : group ≠ []
  chosen : ∃ stops, stops.Sublist given ∧ List.Forall₂ (Stop.Inside zoom) stops group

namespace IsGroupOf

variable {given group : List (Stop ν)} {zoom : ν} {s stop : Stop ν}

theorem single (inside : s.Inside zoom stop) (given : List (Stop ν)) :
    IsGroupOf (given ++ [s]) zoom [stop] :=
  ⟨List.cons_ne_nil _ _, [s], List.sublist_append_right given [s], .cons inside .nil⟩

theorem weaken (isGroup : IsGroupOf given zoom group) (s : Stop ν) :
    IsGroupOf (given ++ [s]) zoom group := by
  obtain ⟨nonempty, stops, among, alike⟩ := isGroup
  exact ⟨nonempty, stops, among.trans (List.sublist_append_left given [s]), alike⟩

theorem concat (isGroup : IsGroupOf given zoom group) (inside : s.Inside zoom stop) :
    IsGroupOf (given ++ [s]) zoom (group ++ [stop]) := by
  obtain ⟨_, stops, among, alike⟩ := isGroup
  exact ⟨by simp, stops ++ [s], among.append (List.Sublist.refl [s]),
    List.rel_append alike (.cons inside .nil)⟩

end IsGroupOf

theorem mem_addToGroup_cases {zoom : ν} {stop : Stop ν} {groups : List (ν × List (Stop ν))}
    {g : ν × List (Stop ν)} (mem : g ∈ addToGroup zoom stop groups) :
    g ∈ groups ∨ g = (zoom, [stop]) ∨
      ∃ h ∈ groups, (h.1 == zoom) = true ∧ g = (h.1, h.2 ++ [stop]) := by
  induction groups with
  | nil => exact Or.inr (Or.inl (List.mem_singleton.mp mem))
  | cons h rest ih =>
    rw [addToGroup] at mem
    split at mem
    · rename_i same
      rcases List.mem_cons.mp mem with extended | mem
      · exact Or.inr (Or.inr ⟨h, List.mem_cons_self .., same, extended⟩)
      · exact Or.inl (List.mem_cons_of_mem _ mem)
    · rcases List.mem_cons.mp mem with rfl | mem
      · exact Or.inl (List.mem_cons_self ..)
      · rcases ih mem with old | opened | ⟨h', mem', extended⟩
        · exact Or.inl (List.mem_cons_of_mem _ old)
        · exact Or.inr (Or.inl opened)
        · exact Or.inr (Or.inr ⟨h', List.mem_cons_of_mem _ mem', extended⟩)

theorem isGroupOf_of_regroup {i : Nat} {before rest : List (Stop ν)}
    {groups result : List (ν × List (Stop ν))} (areGroups : ∀ g ∈ groups, IsGroupOf before g.1 g.2)
    (regrouped : regroup i groups rest = .ok result) :
    ∀ g ∈ result, IsGroupOf (before ++ rest) g.1 g.2 := by
  induction rest generalizing i before groups with
  | nil =>
    obtain rfl := Except.ok.inj regrouped
    simpa using areGroups
  | cons s rest ih =>
    rw [regroup] at regrouped
    cases known : s.zoomAndValue? with
    | none => rw [known] at regrouped; cases regrouped
    | some zv =>
      obtain ⟨zoom, value⟩ := zv
      simp only [known] at regrouped
      have step : ∀ g ∈ addToGroup zoom ⟨value, s.output⟩ groups,
          IsGroupOf (before ++ [s]) g.1 g.2 := by
        intro g mem
        rcases mem_addToGroup_cases mem with old | rfl | ⟨h, hMem, same, rfl⟩
        · exact (areGroups g old).weaken s
        · have first : s.Inside zoom ⟨value, s.output⟩ := ⟨zoom, known, Or.inl rfl, rfl⟩
          exact .single first before
        · have further : s.Inside h.1 ⟨value, s.output⟩ := ⟨zoom, known, Or.inr same, rfl⟩
          exact (areGroups h hMem).concat further
      simpa using ih step regrouped

namespace CompiledFunction

/-! ## Calls -/

/-- One step of compiling, in which groups are compiled by `answer`. -/
def compileBy (answer : FunctionParameters ν → Except FunctionError (CompiledFunction ν))
    (p : FunctionParameters ν) (s : PropertySpec ν) : Except FunctionError (CompiledFunction ν) :=
  (ruleOf p s).bind fun type => (spaceOf p).bind fun space =>
    if p.isComposite then compileComposite p s space fun stops => answer (groupParameters p stops)
    else compileSimple p s type space

/-- While it compiles `p`, the compiler calls itself for a group of its stops, after all groups
before have been accepted. -/
inductive Calls (s : PropertySpec ν) (p : FunctionParameters ν) : FunctionParameters ν → Prop
  | group {type : FunctionType} {space : ColorSpace} {before after : List (ν × List (Stop ν))}
      {zoom : ν} {stops : List (Stop ν)} :
      ruleOf p s = .ok type → spaceOf p = .ok space → p.isComposite = true →
      regroup 0 [] p.stops = .ok (before ++ (zoom, stops) :: after) →
      descent? 0 ((before ++ (zoom, stops) :: after).map (·.1)) = none →
      (∀ g ∈ before, ∃ f, compile (groupParameters p g.2) s = .ok f) →
      Calls s p (groupParameters p stops)

/-- `q` is compiled inside `n` calls, each made by the one before, the first by `p`. -/
inductive CallsNested (s : PropertySpec ν) :
    Nat → FunctionParameters ν → FunctionParameters ν → Prop
  | none (p : FunctionParameters ν) : CallsNested s 0 p p
  | inside {n : Nat} {p q r : FunctionParameters ν} :
      Calls s p q → CallsNested s n q r → CallsNested s (n + 1) p r

/-- The compiler with calls nested at most `depth` deep; deeper ones are answered by `beyond`. -/
def compileNested (beyond : FunctionParameters ν → Except FunctionError (CompiledFunction ν))
    (s : PropertySpec ν) :
    Nat → FunctionParameters ν → Except FunctionError (CompiledFunction ν)
  | 0, p => compileBy beyond p s
  | depth + 1, p => compileBy (compileNested beyond s depth) p s

variable {s : PropertySpec ν} {p q : FunctionParameters ν}

theorem Calls.isGroupOf (call : Calls s p q) :
    (∃ zoom, IsGroupOf p.stops zoom q.stops) ∧ q = groupParameters p q.stops := by
  cases call with
  | @group _ _ _ _ zoom stops _ _ _ regrouped =>
    have isGroup : IsGroupOf ([] ++ p.stops) zoom stops :=
      isGroupOf_of_regroup (by simp) regrouped (zoom, stops) (by simp)
    exact ⟨⟨zoom, isGroup⟩, rfl⟩

theorem Calls.keyDepth_lt (call : Calls s p q) :
    FunctionParameters.keyDepth q.stops < FunctionParameters.keyDepth p.stops := by
  cases call with
  | @group _ _ before after zoom stops _ _ composite regrouped =>
    have mem : (zoom, stops) ∈ before ++ (zoom, stops) :: after := by simp
    have le : FunctionParameters.keyDepth (groupParameters p stops).stops ≤
        FunctionParameters.keyDepth p.stops - 1 := keyDepth_group_le regrouped mem (Nat.le_refl _)
    have positive : FunctionParameters.keyDepth p.stops ≠ 0 := by
      intro flat
      cases (regroup_of_keyDepth_eq_zero composite flat).symm.trans regrouped
    omega

theorem CallsNested.le_keyDepth {n : Nat} (nested : CallsNested s n p q) :
    n ≤ FunctionParameters.keyDepth p.stops := by
  induction nested with
  | none p => exact Nat.zero_le _
  | inside call _ ih => exact Nat.lt_of_le_of_lt ih call.keyDepth_lt

theorem wellFounded_calls (s : PropertySpec ν) : WellFounded fun q p => Calls s p q :=
  Subrelation.wf (fun call => Calls.keyDepth_lt call)
    (measure fun p : FunctionParameters ν => FunctionParameters.keyDepth p.stops).wf

/-! ## What a call depends on -/

theorem compile_eq_compileBy (p : FunctionParameters ν) (s : PropertySpec ν) :
    compile p s = compileBy (compile · s) p s := by
  unfold compileBy
  cases composite : p.isComposite with
  | false =>
    simp only [Bool.false_eq_true, if_false]
    exact compileWithin_of_not_isComposite s composite _
  | true =>
    rw [compile, compileWithin_of_isComposite s composite (Nat.le_refl _)]
    congr
    funext _
    congr
    funext space
    rw [if_pos rfl]
    exact compileComposite_congr fun groups regrouped g mem =>
      compileWithin_eq_compile s (keyDepth_group_le regrouped mem (Nat.le_refl _))

omit [Scalar ν] in
/-- Groups compile alike if those do that are reached. -/
theorem compileGroups_congr_of_reached
    {compile compile' : List (Stop ν) → Except FunctionError (CompiledFunction ν)}
    {groups : List (ν × List (Stop ν))}
    (same : ∀ before g after, groups = before ++ g :: after →
      (∀ h ∈ before, ∃ f, compile' h.2 = .ok f) → compile g.2 = compile' g.2) :
    compileGroups compile groups = compileGroups compile' groups := by
  induction groups with
  | nil => rfl
  | cons g rest ih =>
    rw [compileGroups, compileGroups, same [] g rest rfl (by simp)]
    cases made : compile' g.2 with
    | error e => rfl
    | ok f =>
      rw [ih]
      intro before h after split accepted
      refine same (g :: before) h after (congrArg (g :: ·) split) fun h' mem => ?_
      rcases List.mem_cons.mp mem with rfl | mem
      · exact ⟨f, made⟩
      · exact accepted h' mem

/-- A step of compiling depends only on the answers to the calls that it makes. -/
theorem compileBy_eq_compile
    {answer : FunctionParameters ν → Except FunctionError (CompiledFunction ν)}
    (answers : ∀ q, Calls s p q → answer q = compile q s) : compileBy answer p s = compile p s := by
  rw [compile_eq_compileBy]
  unfold compileBy
  cases ruled : ruleOf p s with
  | error e => rfl
  | ok type =>
    cases spaced : spaceOf p with
    | error e => rfl
    | ok space =>
      simp only [Except.bind]
      split
      · rename_i composite
        unfold compileComposite
        cases regrouped : regroup 0 [] p.stops with
        | error e => rfl
        | ok groups =>
          cases descends : descent? 0 (groups.map (·.1)) with
          | some i => simp only [descends]
          | none =>
            simp only [descends]
            rw [compileGroups_congr_of_reached]
            rintro before g after rfl accepted
            exact answers _ (.group ruled spaced composite regrouped descends accepted)
      · rfl

theorem compileNested_eq_compile
    (beyond : FunctionParameters ν → Except FunctionError (CompiledFunction ν)) {depth : Nat}
    (enough : FunctionParameters.keyDepth p.stops ≤ depth) :
    compileNested beyond s depth p = compile p s := by
  induction depth generalizing p with
  | zero =>
    refine compileBy_eq_compile fun q call => ?_
    have less := call.keyDepth_lt
    omega
  | succ depth ih =>
    refine compileBy_eq_compile fun q call => ?_
    have less := call.keyDepth_lt
    exact ih (by omega)

/-! ## Every compilation ends -/

/-- The recursion of compiling some parameters ends. -/
structure CompilingEnds (p : FunctionParameters ν) (s : PropertySpec ν) : Prop where
  /-- it calls itself only for groups of the stops, and passes the rest on but for the base -/
  groups : ∀ q, Calls s p q →
    (∃ zoom, IsGroupOf p.stops zoom q.stops) ∧ q = groupParameters p q.stops
  /-- nothing else is asked for: only the answers to these calls matter -/
  onlyCalls : ∀ answer, (∀ q, Calls s p q → answer q = compile q s) →
    compileBy answer p s = compile p s
  /-- calls nest at most as deep as values of the inputs do -/
  depth : ∀ n q, CallsNested s n p q → n ≤ FunctionParameters.keyDepth p.stops
  /-- no calls follow each other without end -/
  ends : Acc (fun q p => Calls s p q) p
  /-- so deeper calls may be answered in any way -/
  withinDepth : ∀ beyond,
    compileNested beyond s (FunctionParameters.keyDepth p.stops) p = compile p s

theorem compilingEnds (p : FunctionParameters ν) (s : PropertySpec ν) : CompilingEnds p s where
  groups _ call := call.isGroupOf
  onlyCalls _ answers := compileBy_eq_compile answers
  depth _ _ nested := nested.le_keyDepth
  ends := (wellFounded_calls s).apply p
  withinDepth beyond := compileNested_eq_compile beyond (Nat.le_refl _)

def namesAtOne : List (Stop Float) := [⟨.int 0, .str "a"⟩, ⟨.int 8, .str "b"⟩]

def namesAtNine : List (Stop Float) :=
  [⟨.obj [("value", .int 4), ("zoom", .int 3)], .str "c"⟩]

/-- The calls for `nestedNames` nest as deep as its inputs let them. -/
theorem compilingEnds_of_nestedNames :
    (∃ q, CallsNested (.ofType "string") 2 nestedNames q) ∧
      (∀ n q, CallsNested (.ofType "string") n nestedNames q → n ≤ 2) ∧
      (∃ q zoom, Calls (.ofType "string") nestedNames q ∧
        IsGroupOf nestedNames.stops zoom q.stops) ∧
      compileBy (compile · (.ofType "string")) nestedNames (.ofType "string") =
        compile nestedNames (.ofType "string") := by
  have depth : FunctionParameters.keyDepth nestedNames.stops = 2 := rfl
  have accepted : ∃ f,
      compile (groupParameters nestedNames namesAtOne) (.ofType "string") = .ok f := ⟨_, rfl⟩
  obtain ⟨one, nine, regrouped, sorted⟩ : ∃ one nine, regroup 0 [] nestedNames.stops =
      .ok ([(one, namesAtOne)] ++ (nine, namesAtNine) :: []) ∧
      descent? 0 [one, nine] = none := ⟨_, _, rfl, rfl⟩
  have first : Calls (.ofType "string") nestedNames (groupParameters nestedNames namesAtNine) :=
    .group rfl rfl rfl regrouped sorted (by simpa using accepted)
  obtain ⟨three, regrouped⟩ : ∃ three, regroup 0 [] namesAtNine =
      .ok ([] ++ (three, [⟨.int 4, .str "c"⟩]) :: []) := ⟨_, rfl⟩
  have second : Calls (.ofType "string") (groupParameters nestedNames namesAtNine)
      (groupParameters nestedNames [⟨.int 4, .str "c"⟩]) :=
    .group rfl rfl rfl regrouped rfl (by simp)
  have ends := compilingEnds nestedNames (.ofType "string")
  refine ⟨⟨_, .inside first (.inside second (.none _))⟩, fun n q nested => ?_, ?_,
    ends.onlyCalls _ fun _ _ => rfl⟩
  · exact depth ▸ ends.depth n q nested
  · obtain ⟨zoom, isGroup⟩ := (ends.groups _ first).1
    exact ⟨_, zoom, first, isGroup⟩

end CompiledFunction

end MapStyle
