import Mathlib.Data.List.Sort
import MapStyle.Proofs.StopFunction.Refusals

/-!
# Stops of several zooms in one list

A composite function partitions its stops by zoom: the stops of each zoom make its function, in the
order in which they are given.  So nothing depends on how the stops of different zooms are
interleaved.
-/

set_option autoImplicit false

namespace MapStyle

variable {ν : Type} [Scalar ν]

def Stop.isAt (z : ν) (s : Stop ν) : Bool := s.zoom?.any (· == z)

/-- The same stops, those of each zoom in the same order. -/
structure Reinterleaved (stops stops' : List (Stop ν)) : Prop where
  perm : stops'.Perm stops
  order : ∀ z, stops'.filter (·.isAt z) = stops.filter (·.isAt z)

theorem Reinterleaved.symm {stops stops' : List (Stop ν)} (same : Reinterleaved stops stops') :
    Reinterleaved stops' stops :=
  ⟨same.perm.symm, fun z => (same.order z).symm⟩

/-! ## The stops of one zoom -/

theorem Stop.isAt_eq {s : Stop ν} {y : ν} (known : s.zoom? = some y) (z : ν) :
    s.isAt z = (y == z) := by
  rw [isAt, known, Option.any_some]

theorem stopsAtZoom_filter (z : ν) (stops : List (Stop ν)) :
    stopsAtZoom z (stops.filter (·.isAt z)) = stopsAtZoom z stops := by
  rw [stopsAtZoom, List.filterMap_filter, stopsAtZoom]
  congr 1
  funext s
  cases known : s.zoomAndValue? with
  | none => simp [Stop.atZoom?, known]
  | some zv => cases same : zv.1 == z <;> simp [Stop.isAt, Stop.zoom?, Stop.atZoom?, known, same]

theorem Reinterleaved.stopsAtZoom_eq {stops stops' : List (Stop ν)}
    (same : Reinterleaved stops stops') (z : ν) : stopsAtZoom z stops' = stopsAtZoom z stops := by
  rw [← stopsAtZoom_filter, same.order, stopsAtZoom_filter]

theorem Stop.isObject_of_zoom? {s : Stop ν} {z : ν} (known : s.zoom? = some z) :
    s.key.isObject = true := by
  obtain ⟨⟨y, v⟩, known, _⟩ := Option.map_eq_some_iff.mp known
  have value := (zoomAndValue?_eq_some known).2
  cases key : s.key with
  | obj members => rfl
  | _ => rw [key] at value; cases value

section Ordered

variable [Scalar.Ordered ν]

theorem filter_isAt_congr {y z : ν} (same : (y == z) = true) (stops : List (Stop ν)) :
    stops.filter (·.isAt y) = stops.filter (·.isAt z) := by
  congr 1
  funext s
  have alike (x : ν) : (x == y) = (x == z) := by
    rw [Bool.eq_iff_iff]
    exact ⟨fun left => Scalar.beq_trans left same,
      fun right => Scalar.beq_trans right (Scalar.beq_symm same)⟩
  simp only [Stop.isAt, alike]

theorem Reinterleaved.swap {s t : Stop ν} {y z : ν} (known : s.zoom? = some y)
    (known' : t.zoom? = some z) (apart : (y == z) = false) (before after : List (Stop ν)) :
    Reinterleaved (before ++ s :: t :: after) (before ++ t :: s :: after) where
  perm := (List.Perm.swap s t after).append_left before
  order x := by
    simp only [List.filter_append, List.filter_cons, Stop.isAt_eq known, Stop.isAt_eq known']
    cases left : y == x with
    | false => simp
    | true =>
      cases right : z == x with
      | false => simp
      | true =>
        have equal := Scalar.beq_trans left (Scalar.beq_symm right)
        exact Bool.noConfusion (equal.symm.trans apart)

/-! ## The zooms in order -/

def HaveZooms (stops : List (Stop ν)) : Prop :=
  ∀ s ∈ stops, ∃ z v, s.zoomAndValue? = some (z, v) ∧ (z == z) = true

variable {stops stops' : List (Stop ν)} {z : ν}

omit [Scalar.Ordered ν] in
theorem HaveZooms.zoom (zoomed : HaveZooms stops) {s : Stop ν} (mem : s ∈ stops) :
    ∃ y, s.zoom? = some y ∧ (y == y) = true := by
  obtain ⟨y, v, known, number⟩ := zoomed s mem
  exact ⟨y, congrArg (Option.map Prod.fst) known, number⟩

theorem HaveZooms.exists_mem_zoomsOf (zoomed : HaveZooms stops) {s : Stop ν} (mem : s ∈ stops)
    (known : s.zoom? = some z) : ∃ y ∈ zoomsOf stops, (y == z) = true := by
  obtain ⟨⟨z', v⟩, found, rfl⟩ := Option.map_eq_some_iff.mp known
  obtain ⟨g, gMem, same⟩ := (areGroups_zoomsOf zoomed).covered s mem z' v found
  obtain ⟨y, yMem, rfl⟩ := List.mem_map.mp gMem
  exact ⟨y, yMem, same⟩

/-- A zoom of some stops is written as the first stop writes it that has it. -/
theorem HaveZooms.head_of_mem_zoomsOf (zoomed : HaveZooms stops)
    (mem : z ∈ zoomsOf stops) :
    ∃ first rest, stops.filter (·.isAt z) = first :: rest ∧ first.zoom? = some z := by
  obtain ⟨zooms, later, split⟩ := List.append_of_mem mem
  obtain ⟨before, first, after, rfl, earlier, known⟩ := exists_first_of_zoomsOf split
  have distinct : (zoomsOf (before ++ first :: after)).Pairwise fun x y => (x == y) = false := by
    simpa only [List.pairwise_map] using (areGroups_zoomsOf zoomed).distinct
  -- a stop before it of an equal zoom would have that among the zooms before
  have none : before.filter (·.isAt z) = [] := by
    rw [List.filter_eq_nil_iff]
    intro s sMem isAt
    have haveBefore : HaveZooms before := fun t tMem => zoomed t (List.mem_append_left _ tMem)
    obtain ⟨x, isZoom, _⟩ := haveBefore.zoom sMem
    obtain ⟨y, yMem, same⟩ := haveBefore.exists_mem_zoomsOf sMem isZoom
    rw [Stop.isAt_eq isZoom] at isAt
    rw [earlier] at yMem
    rw [split] at distinct
    have differs := (List.pairwise_append.mp distinct).2.2 y yMem z (List.mem_cons_self ..)
    exact Bool.noConfusion ((Scalar.beq_trans same isAt).symm.trans differs)
  obtain ⟨y, isZoom, number⟩ := zoomed.zoom (List.mem_append_right _ (List.mem_cons_self ..))
  obtain rfl := Option.some.inj (known.symm.trans isZoom)
  refine ⟨first, after.filter (·.isAt z), ?_, known⟩
  rw [List.filter_append, none, List.nil_append,
    List.filter_cons_of_pos ((Stop.isAt_eq known z).trans number)]

theorem Reinterleaved.mem_zoomsOf (same : Reinterleaved stops stops') (zoomed : HaveZooms stops)
    (zoomed' : HaveZooms stops') (mem : z ∈ zoomsOf stops) : z ∈ zoomsOf stops' := by
  obtain ⟨first, rest, starts, known⟩ := zoomed.head_of_mem_zoomsOf mem
  have inside : first ∈ stops.filter (·.isAt z) := by
    rw [starts]
    exact List.mem_cons_self ..
  have inside' : first ∈ stops' := same.perm.mem_iff.mpr (List.mem_filter.mp inside).1
  obtain ⟨y, yMem, equal⟩ := zoomed'.exists_mem_zoomsOf inside' known
  obtain ⟨first', rest', starts', known'⟩ := zoomed'.head_of_mem_zoomsOf yMem
  rw [filter_isAt_congr equal, same.order, starts] at starts'
  obtain ⟨rfl, _⟩ := List.cons.inj starts'
  obtain rfl := Option.some.inj (known.symm.trans known')
  exact yMem

/-- The zooms of stops that are interleaved otherwise are the same if they ascend in both. -/
theorem Reinterleaved.zoomsOf_eq (same : Reinterleaved stops stops') (zoomed : HaveZooms stops)
    (zoomed' : HaveZooms stops') (ascending : (zoomsOf stops).Pairwise (· < ·))
    (ascending' : (zoomsOf stops').Pairwise (· < ·)) : zoomsOf stops' = zoomsOf stops := by
  have : Std.Irrefl (α := ν) (· < ·) := ⟨Scalar.lt_irrefl⟩
  have : Std.Antisymm (α := ν) (· < ·) :=
    ⟨fun _ _ lt gt => absurd (Scalar.lt_trans lt gt) (Scalar.lt_irrefl _)⟩
  exact ascending'.eq_of_mem_iff ascending fun z =>
    ⟨same.symm.mem_zoomsOf zoomed' zoomed, same.mem_zoomsOf zoomed zoomed'⟩

/-! ## Nothing lost and nothing twice -/

theorem countP_eq_one_of_ascending {zooms : List ν} (ascending : zooms.Pairwise (· < ·)) {y : ν}
    (mem : y ∈ zooms) (same : (y == z) = true) : zooms.countP (· == z) = 1 := by
  have differs {x : ν} (apart : x < y ∨ y < x) : (x == z) = false := by
    cases equal : x == z with
    | false => rfl
    | true =>
      have meets := Scalar.beq_trans equal (Scalar.beq_symm same)
      rcases apart with lt | gt
      · exact absurd (Scalar.le_of_beq (Scalar.beq_symm meets)) (Scalar.not_le_of_lt lt)
      · exact absurd (Scalar.le_of_beq meets) (Scalar.not_le_of_lt gt)
  obtain ⟨before, after, rfl⟩ := List.append_of_mem mem
  obtain ⟨_, rest, below⟩ := List.pairwise_append.mp ascending
  have above := (List.pairwise_cons.mp rest).1
  have noneBefore : before.countP (· == z) = 0 := List.countP_eq_zero.mpr fun x xMem => by
    rw [differs (Or.inl (below x xMem y (List.mem_cons_self ..)))]
    exact Bool.false_ne_true
  have noneAfter : after.countP (· == z) = 0 := List.countP_eq_zero.mpr fun x xMem => by
    rw [differs (Or.inr (above x xMem))]
    exact Bool.false_ne_true
  have here : (y :: after).countP (· == z) = after.countP (· == z) + 1 :=
    List.countP_cons_of_pos same
  rw [List.countP_append, here, noneBefore, noneAfter]

omit [Scalar.Ordered ν] in
/-- Stops of which each is at one of some zooms are the stops at the first, at the second, and so
on, put in another order. -/
theorem perm_of_countP_eq_one {zooms : List ν}
    (once : ∀ s ∈ stops, zooms.countP (fun z => s.isAt z) = 1) :
    (zooms.flatMap fun z => stops.filter (·.isAt z)).Perm stops := by
  induction stops with
  | nil => simp
  | cons s rest ih =>
    have split (z : ν) : (s :: rest).filter (·.isAt z) =
        (if s.isAt z then [s] else []) ++ rest.filter (·.isAt z) := by
      rw [List.filter_cons]
      split <;> rfl
    have single : (zooms.flatMap fun z => if s.isAt z then [s] else []) = [s] := by
      have all : (zooms.flatMap fun z => if s.isAt z then [s] else []) =
          List.replicate (zooms.countP fun z => s.isAt z) s := by
        clear once ih split
        induction zooms with
        | nil => rfl
        | cons z zooms ih =>
          rw [List.flatMap_cons, ih]
          cases isAt : s.isAt z <;> simp [isAt, List.replicate_succ]
      rw [all, once s (List.mem_cons_self ..)]
      rfl
    simp only [split]
    refine (List.flatMap_append_perm zooms _ _).symm.trans ?_
    rw [single]
    exact (ih fun t mem => once t (List.mem_cons_of_mem _ mem)).cons s

end Ordered

namespace CompiledFunction

variable {p : FunctionParameters ν} {s : PropertySpec ν} {f : CompiledFunction ν}

/-- Definitions that differ in their stops make one function if these are objects that regroup to
the same groups. -/
theorem compile_eq_of_regroup {stops' : List (Stop ν)} (composite : p.isComposite = true)
    (composite' : ({ p with stops := stops' } : FunctionParameters ν).isComposite = true)
    (same : regroup 0 [] stops' = regroup 0 [] p.stops) :
    compile { p with stops := stops' } s = compile p s := by
  have byGroups (q : FunctionParameters ν) (composite : q.isComposite = true) :
      compile q s = (ruleOf q s).bind fun _ => (spaceOf q).bind fun space =>
        compileComposite q s space fun stops => compile (groupParameters q stops) s := by
    rw [compile, compileWithin_of_isComposite s composite (Nat.le_refl _)]
    congr
    funext _
    congr
    funext space
    exact compileComposite_congr fun groups regrouped g mem =>
      compileWithin_eq_compile s (keyDepth_group_le regrouped mem (Nat.le_refl _))
  rw [byGroups _ composite', byGroups p composite]
  simp only [compileComposite, same]
  rfl

/-- The stops of a definition are partitioned by zoom: the function names every zoom of a stop once
and no others, in ascending order, each stop is at one of them, and at each the function is what the
stops of that zoom make on their own, in the order in which they are given. -/
structure PartitionsStops (p : FunctionParameters ν) (s : PropertySpec ν) (f : CompiledFunction ν) :
    Prop where
  ascending : f.zoomStops.Pairwise (· < ·)
  once : ∀ z, p.HasZoom z → f.zoomStops.countP (· == z) = 1
  occurs : ∀ z ∈ f.zoomStops, p.HasZoom z
  whole : (f.zoomStops.flatMap fun z => p.stops.filter (·.isAt z)).Perm p.stops
  functions : ∃ stops fallback space, f = .composite stops fallback space s ∧
    ∀ stop ∈ stops, compile (p.atZoom stop.1) s = .ok stop.2

variable [Scalar.Ordered ν]

theorem haveZooms_of_compile (compiled : compile p s = .ok f) (composite : p.isComposite = true)
    (free : StopsNaNFree p.stops) :
    HaveZooms p.stops ∧ f.zoomStops = zoomsOf p.stops ∧ (zoomsOf p.stops).Pairwise (· < ·) := by
  obtain ⟨parts⟩ := compositeParts_of_compile compiled composite
  obtain ⟨haveZooms, groups⟩ := groups_eq_of_regroup free parts.regrouped
  have zooms : parts.stops.map (·.1) = zoomsOf p.stops := by
    rw [parts.zooms, groups, map_fst_stopsAtZoom]
  refine ⟨numbered_of_free free haveZooms, ?_, zooms ▸ parts.ascending free.hasZoom⟩
  rw [parts.eq_composite]
  exact zooms

theorem partitionsStops_of_compile (compiled : compile p s = .ok f)
    (composite : p.isComposite = true) (free : StopsNaNFree p.stops) : PartitionsStops p s f := by
  obtain ⟨parts⟩ := compositeParts_of_compile compiled composite
  obtain ⟨haveZooms, zooms, ascending⟩ := haveZooms_of_compile compiled composite free
  rw [← zooms] at ascending
  have once {stop : Stop ν} (mem : stop ∈ p.stops) {z : ν} (known : stop.zoom? = some z) :
      f.zoomStops.countP (· == z) = 1 := by
    obtain ⟨y, yMem, same⟩ := haveZooms.exists_mem_zoomsOf mem known
    exact countP_eq_one_of_ascending ascending (zooms ▸ yMem) same
  refine ⟨ascending, ?_, ?_, perm_of_countP_eq_one ?_, parts.stops, parts.fallback, parts.space,
    parts.eq_composite, ?_⟩
  · rintro z ⟨stop, mem, value, known⟩
    exact once mem (congrArg (Option.map Prod.fst) known)
  · intro z mem
    obtain ⟨stop, stopMem, isZoom⟩ := exists_of_mem_zoomsOf (zooms ▸ mem)
    obtain ⟨⟨z', value⟩, known, rfl⟩ := Option.map_eq_some_iff.mp isZoom
    exact ⟨stop, stopMem, value, known⟩
  · intro stop mem
    obtain ⟨z, known, _⟩ := haveZooms.zoom mem
    rw [← once mem known]
    refine List.countP_congr fun y _ => ?_
    rw [Stop.isAt_eq known]
    exact ⟨Scalar.beq_symm, Scalar.beq_symm⟩
  · intro stop mem
    obtain ⟨i, found⟩ := List.getElem?_of_mem mem
    exact parts.compile_atZoom free.hasZoom found

theorem eq_of_reinterleaved (compiled : compile p s = .ok f) (composite : p.isComposite = true)
    (free : StopsNaNFree p.stops) {stops' : List (Stop ν)} (same : Reinterleaved p.stops stops')
    {g : CompiledFunction ν} (compiled' : compile { p with stops := stops' } s = .ok g) :
    g = f := by
  obtain ⟨haveZooms, _, ascending⟩ := haveZooms_of_compile compiled composite free
  have composite' : ({ p with stops := stops' } : FunctionParameters ν).isComposite = true := by
    cases given : stops' with
    | nil =>
      have noStops : p.stops = [] := List.nil_perm.mp (given ▸ same.perm)
      simp [FunctionParameters.isComposite, noStops] at composite
    | cons first rest =>
      have mem : first ∈ p.stops := same.perm.mem_iff.mp (given ▸ List.mem_cons_self ..)
      obtain ⟨z, known, _⟩ := haveZooms.zoom mem
      exact Stop.isObject_of_zoom? known
  have free' : StopsNaNFree stops' := fun stop mem => free stop (same.perm.mem_iff.mp mem)
  obtain ⟨haveZooms', _, ascending'⟩ := haveZooms_of_compile compiled' composite' free'
  have regrouped : regroup 0 [] stops' = regroup 0 [] p.stops := by
    rw [regroup_eq_zoomsOf haveZooms, regroup_eq_zoomsOf haveZooms',
      same.zoomsOf_eq haveZooms haveZooms' ascending ascending']
    simp only [same.stopsAtZoom_eq]
  rw [compile_eq_of_regroup composite composite' regrouped] at compiled'
  exact Except.ok.inj (compiled'.symm.trans compiled)

/-- An accepted definition of zooms and values partitions its stops by zoom; so one that differs in
how the stops of different zooms are interleaved makes, if it is accepted, a function of the same
zooms and outputs. -/
theorem regroups_stably (compiled : compile p s = .ok f) (composite : p.isComposite = true)
    (free : StopsNaNFree p.stops) :
    PartitionsStops p s f ∧
      ∀ stops' g, Reinterleaved p.stops stops' → compile { p with stops := stops' } s = .ok g →
        g.zoomStops = f.zoomStops ∧ ∀ env, g.evaluate env = f.evaluate env := by
  refine ⟨partitionsStops_of_compile compiled composite free, ?_⟩
  intro stops' g same compiled'
  rw [eq_of_reinterleaved compiled composite free same compiled']
  exact ⟨rfl, fun _ => rfl⟩

theorem regroups_stably_of_numberedNames :
    ∃ f g : CompiledFunction Float, ∃ a b c, numberedNames.stops = [a, b, c] ∧
      compile numberedNames (.ofType "string") = .ok f ∧
      compile { numberedNames with stops := [a, c, b] } (.ofType "string") = .ok g ∧
      f.zoomStops = [Scalar.ofInt 1, Scalar.ofInt 3] ∧ g.zoomStops = f.zoomStops ∧
      ∀ env, g.evaluate env = f.evaluate env := by
  obtain ⟨f, compiled, zooms⟩ : ∃ f : CompiledFunction Float,
    compile numberedNames (.ofType "string") = .ok f ∧
      f.zoomStops = [Scalar.ofInt 1, Scalar.ofInt 3] := ⟨_, rfl, rfl⟩
  obtain ⟨_, regroups⟩ := regroups_stably compiled rfl numberedNames_free
  have apart : ((Scalar.ofInt 3 : Float) == Scalar.ofInt 1) = false := by decide +kernel
  exact ⟨f, _, _, _, _, rfl, compiled, rfl, zooms,
    regroups _ _ (Reinterleaved.swap rfl rfl apart [_] []) rfl⟩

end CompiledFunction

end MapStyle
