import MapStyle.StopFunction.Compiled
import MapStyle.Proofs.Number.Order

/-!
# Regrouping stops by zoom

The groups of stops with zoom and value are the stops of each zoom, in their order, under zooms
that differ from each other.
-/

set_option autoImplicit false

namespace MapStyle

variable {ν : Type} [Scalar ν]

/-- The stop without its zoom, if that equals the given one. -/
def Stop.atZoom? (zoom : ν) (s : Stop ν) : Option (Stop ν) :=
  s.zoomAndValue?.bind fun (z, value) => if z == zoom then some ⟨value, s.output⟩ else none

def stopsAtZoom (zoom : ν) (stops : List (Stop ν)) : List (Stop ν) :=
  stops.filterMap (Stop.atZoom? zoom)

/-- Groups that are the stops of their zooms; the zooms differ, and are all those of the stops. -/
structure AreGroups (stops : List (Stop ν)) (groups : List (ν × List (Stop ν))) : Prop where
  distinct : groups.Pairwise fun g h => (g.1 == h.1) = false
  eq_stopsAtZoom : ∀ g ∈ groups, g.2 = stopsAtZoom g.1 stops
  covered : ∀ s ∈ stops, ∀ z v, s.zoomAndValue? = some (z, v) → ∃ g ∈ groups, (g.1 == z) = true
  occurs : ∀ g ∈ groups, ∃ s ∈ stops, ∃ v, s.zoomAndValue? = some (g.1, v)

theorem areGroups_nil : AreGroups ([] : List (Stop ν)) [] :=
  ⟨.nil, by simp, by simp, by simp⟩

variable {zoom : ν} {stop : Stop ν}

/-! ## One more stop -/

theorem mem_addToGroup {groups : List (ν × List (Stop ν))} {g : ν × List (Stop ν)} {s : Stop ν}
    (gMem : g ∈ addToGroup zoom stop groups) (mem : s ∈ g.2) :
    s = stop ∨ ∃ h ∈ groups, s ∈ h.2 := by
  induction groups with
  | nil =>
    obtain rfl := List.mem_singleton.mp gMem
    exact Or.inl (List.mem_singleton.mp mem)
  | cons h rest ih =>
    rw [addToGroup] at gMem
    split at gMem
    · rcases List.mem_cons.mp gMem with rfl | gMem
      · rcases List.mem_append.mp mem with mem | mem
        · exact Or.inr ⟨h, List.mem_cons_self .., mem⟩
        · exact Or.inl (List.mem_singleton.mp mem)
      · exact Or.inr ⟨g, List.mem_cons_of_mem _ gMem, mem⟩
    · rcases List.mem_cons.mp gMem with rfl | gMem
      · exact Or.inr ⟨h, List.mem_cons_self .., mem⟩
      · rcases ih gMem with added | ⟨h', mem', inside⟩
        · exact Or.inl added
        · exact Or.inr ⟨h', List.mem_cons_of_mem _ mem', inside⟩

theorem mem_regroup {i : Nat} {rest : List (Stop ν)} {groups result : List (ν × List (Stop ν))}
    (regrouped : regroup i groups rest = .ok result) {g : ν × List (Stop ν)} (gMem : g ∈ result)
    {s : Stop ν} (mem : s ∈ g.2) :
    (∃ h ∈ groups, s ∈ h.2) ∨ ∃ t ∈ rest, ∃ z, t.zoomAndValue? = some (z, s.key) := by
  induction rest generalizing i groups with
  | nil =>
    obtain rfl := Except.ok.inj regrouped
    exact Or.inl ⟨g, gMem, mem⟩
  | cons t rest ih =>
    rw [regroup] at regrouped
    cases known : t.zoomAndValue? with
    | none => rw [known] at regrouped; cases regrouped
    | some zv =>
      obtain ⟨zoom, value⟩ := zv
      simp only [known] at regrouped
      rcases ih regrouped with ⟨h, hMem, inside⟩ | ⟨t', tMem, found⟩
      · rcases mem_addToGroup hMem inside with rfl | old
        · exact Or.inr ⟨t, List.mem_cons_self .., zoom, known⟩
        · exact Or.inl old
      · exact Or.inr ⟨t', List.mem_cons_of_mem _ tMem, found⟩

theorem addToGroup_ne_nil (groups : List (ν × List (Stop ν))) :
    addToGroup zoom stop groups ≠ [] := by
  cases groups with
  | nil => exact List.cons_ne_nil _ _
  | cons g rest =>
    rw [addToGroup]
    split <;> exact List.cons_ne_nil _ _

theorem regroup_ne_nil {i : Nat} {rest : List (Stop ν)} {groups result : List (ν × List (Stop ν))}
    (regrouped : regroup i groups rest = .ok result) (filled : groups ≠ [] ∨ rest ≠ []) :
    result ≠ [] := by
  induction rest generalizing i groups with
  | nil =>
    cases Except.ok.inj regrouped
    exact filled.resolve_right fun some => some rfl
  | cons t rest ih =>
    rw [regroup] at regrouped
    cases known : t.zoomAndValue? with
    | none => rw [known] at regrouped; cases regrouped
    | some zv =>
      simp only [known] at regrouped
      exact ih regrouped (Or.inl (addToGroup_ne_nil groups))

theorem addToGroup_of_absent {groups : List (ν × List (Stop ν))}
    (absent : ∀ g ∈ groups, (g.1 == zoom) = false) :
    addToGroup zoom stop groups = groups ++ [(zoom, [stop])] := by
  induction groups with
  | nil => rfl
  | cons g rest ih =>
    have differs : (g.1 == zoom) = false := absent g (by simp)
    rw [addToGroup, differs, ih fun h mem => absent h (by simp [mem])]
    rfl

theorem addToGroup_of_first {before after : List (ν × List (Stop ν))} {g : ν × List (Stop ν)}
    (absent : ∀ h ∈ before, (h.1 == zoom) = false) (same : (g.1 == zoom) = true) :
    addToGroup zoom stop (before ++ g :: after) =
      before ++ (g.1, g.2 ++ [stop]) :: after := by
  induction before with
  | nil => simp [addToGroup, same]
  | cons h rest ih =>
    have differs : (h.1 == zoom) = false := absent h (by simp)
    rw [List.cons_append, addToGroup, differs, ih fun h' mem => absent h' (by simp [mem])]
    rfl

theorem stopsAtZoom_concat {s : Stop ν} {z : ν} {value : Json ν}
    (known : s.zoomAndValue? = some (z, value)) (stops : List (Stop ν)) :
    stopsAtZoom zoom (stops ++ [s]) =
      stopsAtZoom zoom stops ++ if z == zoom then [⟨value, s.output⟩] else [] := by
  rw [stopsAtZoom, List.filterMap_append]
  congr 1
  simp only [List.filterMap_cons, List.filterMap_nil, Stop.atZoom?, known, Option.bind_some]
  cases z == zoom <;> rfl

variable [Scalar.Ordered ν]

theorem stopsAtZoom_congr {z : ν} (same : (z == zoom) = true) (stops : List (Stop ν)) :
    stopsAtZoom z stops = stopsAtZoom zoom stops := by
  have alike (y : ν) : (y == z) = (y == zoom) := by
    cases left : y == z with
    | true => exact (Scalar.beq_trans left same).symm
    | false =>
      cases right : y == zoom with
      | true => exact left.symm.trans (Scalar.beq_trans right (Scalar.beq_symm same))
      | false => rfl
  have atZoom : Stop.atZoom? z = Stop.atZoom? zoom := by
    funext s
    simp only [Stop.atZoom?, alike]
  rw [stopsAtZoom, atZoom, stopsAtZoom]

namespace AreGroups

variable {stops : List (Stop ν)} {groups : List (ν × List (Stop ν))} {s : Stop ν} {value : Json ν}

theorem stopsAtZoom_of_absent (areGroups : AreGroups stops groups)
    (absent : ∀ g ∈ groups, (g.1 == zoom) = false) : stopsAtZoom zoom stops = [] := by
  refine List.filterMap_eq_nil_iff.mpr fun t mem => ?_
  cases known : t.zoomAndValue? with
  | none => simp [Stop.atZoom?, known]
  | some zv =>
    obtain ⟨g, gMem, same⟩ := areGroups.covered t mem zv.1 zv.2 known
    have differs : (zv.1 == zoom) = false := by
      cases other : zv.1 == zoom with
      | false => rfl
      | true => exact absurd (Scalar.beq_trans same other) (by rw [absent g gMem]; decide)
    simp [Stop.atZoom?, known, differs]

theorem concat_of_absent (areGroups : AreGroups stops groups)
    (absent : ∀ g ∈ groups, (g.1 == zoom) = false)
    (known : s.zoomAndValue? = some (zoom, value)) (number : (zoom == zoom) = true) :
    AreGroups (stops ++ [s]) (groups ++ [(zoom, [⟨value, s.output⟩])]) where
  distinct := by
    refine List.pairwise_append.mpr ⟨areGroups.distinct, List.pairwise_singleton _ _, ?_⟩
    intro g mem h hMem
    obtain rfl := List.mem_singleton.mp hMem
    exact absent g mem
  eq_stopsAtZoom := by
    intro g mem
    rw [stopsAtZoom_concat known]
    rcases List.mem_append.mp mem with mem | mem
    · have differs : (zoom == g.1) = false := by
        cases same : zoom == g.1 with
        | false => rfl
        | true => exact absurd (Scalar.beq_symm same) (by rw [absent g mem]; decide)
      simp [differs, ← areGroups.eq_stopsAtZoom g mem]
    · obtain rfl := List.mem_singleton.mp mem
      simp [number, areGroups.stopsAtZoom_of_absent absent]
  covered := by
    intro t mem z v tKnown
    rcases List.mem_append.mp mem with mem | mem
    · obtain ⟨g, gMem, same⟩ := areGroups.covered t mem z v tKnown
      exact ⟨g, List.mem_append_left _ gMem, same⟩
    · obtain rfl := List.mem_singleton.mp mem
      obtain ⟨rfl, rfl⟩ := Prod.mk.inj (Option.some.inj (known.symm.trans tKnown))
      exact ⟨_, List.mem_append_right _ (List.mem_singleton_self _), number⟩
  occurs := by
    intro g mem
    rcases List.mem_append.mp mem with mem | mem
    · obtain ⟨t, tMem, v, tKnown⟩ := areGroups.occurs g mem
      exact ⟨t, List.mem_append_left _ tMem, v, tKnown⟩
    · obtain rfl := List.mem_singleton.mp mem
      exact ⟨s, by simp, value, known⟩

theorem concat_of_found {before after : List (ν × List (Stop ν))} {g : ν × List (Stop ν)}
    (areGroups : AreGroups stops (before ++ g :: after)) (same : (g.1 == zoom) = true)
    (known : s.zoomAndValue? = some (zoom, value)) :
    AreGroups (stops ++ [s]) (before ++ (g.1, g.2 ++ [⟨value, s.output⟩]) :: after) := by
  -- the groups keep their zooms, and only that of `g` meets the zoom of the stop
  have zooms : ∀ h ∈ before ++ (g.1, g.2 ++ [⟨value, s.output⟩]) :: after,
      ∃ h' ∈ before ++ g :: after, h'.1 = h.1 := by
    intro h mem
    rcases List.mem_append.mp mem with mem | mem
    · exact ⟨h, List.mem_append_left _ mem, rfl⟩
    · rcases List.mem_cons.mp mem with rfl | mem
      · exact ⟨g, by simp, rfl⟩
      · exact ⟨h, by simp [mem], rfl⟩
  have other {y : ν} (differ : (y == g.1) = false ∨ (g.1 == y) = false) : (zoom == y) = false := by
    cases meets : zoom == y with
    | false => rfl
    | true =>
      have reaches := Scalar.beq_trans same meets
      rcases differ with differ | differ
      · exact absurd (Scalar.beq_symm reaches) (by rw [differ]; decide)
      · exact absurd reaches (by rw [differ]; decide)
  have distinct := List.pairwise_append.mp areGroups.distinct
  refine ⟨?_, ?_, ?_, ?_⟩
  · have distinct' := areGroups.distinct
    rw [← List.pairwise_map (f := Prod.fst) (R := fun x y => (x == y) = false)] at distinct' ⊢
    simpa using distinct'
  · intro h mem
    rw [stopsAtZoom_concat known]
    rcases List.mem_append.mp mem with mem | mem
    · have differs := other (Or.inl (distinct.2.2 h mem g (by simp)))
      simp [differs, ← areGroups.eq_stopsAtZoom h (by simp [mem])]
    · rcases List.mem_cons.mp mem with rfl | mem
      · simp [Scalar.beq_symm same, ← areGroups.eq_stopsAtZoom g (by simp)]
      · have differs := other (Or.inr ((List.pairwise_cons.mp distinct.2.1).1 h mem))
        simp [differs, ← areGroups.eq_stopsAtZoom h (by simp [mem])]
  · intro t mem z v tKnown
    have ofOld {h : ν × List (Stop ν)} (mem : h ∈ before ++ g :: after)
        (meets : (h.1 == z) = true) :
        ∃ h' ∈ before ++ (g.1, g.2 ++ [⟨value, s.output⟩]) :: after, (h'.1 == z) = true := by
      rcases List.mem_append.mp mem with mem | mem
      · exact ⟨h, List.mem_append_left _ mem, meets⟩
      · rcases List.mem_cons.mp mem with rfl | mem
        · exact ⟨_, List.mem_append_right _ (List.mem_cons_self ..), meets⟩
        · exact ⟨h, by simp [mem], meets⟩
    rcases List.mem_append.mp mem with mem | mem
    · obtain ⟨h, hMem, meets⟩ := areGroups.covered t mem z v tKnown
      exact ofOld hMem meets
    · obtain rfl := List.mem_singleton.mp mem
      obtain ⟨rfl, rfl⟩ := Prod.mk.inj (Option.some.inj (known.symm.trans tKnown))
      exact ofOld (h := g) (by simp) same
  · intro h mem
    obtain ⟨h', mem', eq⟩ := zooms h mem
    obtain ⟨t, tMem, v, tKnown⟩ := areGroups.occurs h' mem'
    exact ⟨t, List.mem_append_left _ tMem, v, eq ▸ tKnown⟩

theorem concat (areGroups : AreGroups stops groups)
    (known : s.zoomAndValue? = some (zoom, value)) (number : (zoom == zoom) = true) :
    AreGroups (stops ++ [s]) (addToGroup zoom ⟨value, s.output⟩ groups) := by
  cases found : groups.find? fun g => g.1 == zoom with
  | none =>
    have absent : ∀ g ∈ groups, (g.1 == zoom) = false := by
      simpa using List.find?_eq_none.mp found
    rw [addToGroup_of_absent absent]
    exact areGroups.concat_of_absent absent known number
  | some g =>
    obtain ⟨same, before, after, rfl, absent⟩ := List.find?_eq_some_iff_append.mp found
    rw [addToGroup_of_first (by simpa using absent) same]
    exact areGroups.concat_of_found same known

end AreGroups

theorem areGroups_of_regroup {i : Nat} {before rest : List (Stop ν)}
    {groups result : List (ν × List (Stop ν))} (areGroups : AreGroups before groups)
    (numbers : ∀ s ∈ rest, ∀ z v, s.zoomAndValue? = some (z, v) → (z == z) = true)
    (regrouped : regroup i groups rest = .ok result) :
    AreGroups (before ++ rest) result ∧ ∀ s ∈ rest, s.zoomAndValue?.isSome = true := by
  induction rest generalizing i before groups with
  | nil =>
    obtain rfl := Except.ok.inj regrouped
    exact ⟨by simpa using areGroups, by simp⟩
  | cons s rest ih =>
    rw [regroup] at regrouped
    cases known : s.zoomAndValue? with
    | none => rw [known] at regrouped; cases regrouped
    | some zv =>
      obtain ⟨zoom, value⟩ := zv
      simp only [known] at regrouped
      have step := areGroups.concat known (numbers s (by simp) zoom value known)
      obtain ⟨whole, haveZooms⟩ := ih step (fun t mem => numbers t (by simp [mem])) regrouped
      refine ⟨by simpa using whole, ?_⟩
      intro t mem
      rcases List.mem_cons.mp mem with rfl | mem
      · rw [known]; rfl
      · exact haveZooms t mem

/-! ## The zooms of the groups -/

def Stop.zoom? (s : Stop ν) : Option ν := s.zoomAndValue?.map (·.1)

/-- The zooms of stops, each where it first appears. -/
def zoomsOf (stops : List (Stop ν)) : List ν := (stops.filterMap Stop.zoom?).eraseDups

omit [Scalar.Ordered ν] in
theorem map_fst_stopsAtZoom (stops : List (Stop ν)) :
    ((zoomsOf stops).map fun z => (z, stopsAtZoom z stops)).map (·.1) = zoomsOf stops := by
  rw [List.map_map]
  exact List.map_id _

theorem zooms_addToGroup (stop : Stop ν) (groups : List (ν × List (Stop ν))) :
    (addToGroup zoom stop groups).map (·.1) =
      if (groups.map (·.1)).any (zoom == ·) then groups.map (·.1)
      else groups.map (·.1) ++ [zoom] := by
  induction groups with
  | nil => rfl
  | cons g rest ih =>
    have symm : (zoom == g.1) = (g.1 == zoom) := by
      rw [Bool.eq_iff_iff]
      exact ⟨Scalar.beq_symm, Scalar.beq_symm⟩
    rw [addToGroup, List.map_cons, List.any_cons, symm]
    cases g.1 == zoom with
    | true => rfl
    | false =>
      simp only [Bool.false_eq_true, if_false, List.map_cons, Bool.false_or, ih]
      split <;> rfl

/-- Regrouping stops of zoom and value opens a group at the first stop of every zoom. -/
theorem exists_regroup_of_zooms {i : Nat} {rest : List (Stop ν)} (groups : List (ν × List (Stop ν)))
    (haveZooms : ∀ s ∈ rest, s.zoomAndValue?.isSome = true) :
    ∃ result, regroup i groups rest = .ok result ∧ result.map (·.1) =
      List.eraseDupsBy.loop (· == ·) (rest.filterMap Stop.zoom?) (groups.map (·.1)).reverse := by
  induction rest generalizing i groups with
  | nil => exact ⟨groups, rfl, by simp [List.eraseDupsBy.loop]⟩
  | cons s rest ih =>
    obtain ⟨⟨z, value⟩, known⟩ := Option.isSome_iff_exists.mp (haveZooms s (by simp))
    obtain ⟨result, regrouped, zooms⟩ := ih (i := i + 1) (addToGroup z ⟨value, s.output⟩ groups)
      fun t mem => haveZooms t (by simp [mem])
    refine ⟨result, by simpa only [regroup, known] using regrouped, ?_⟩
    have first : s.zoom? = some z := by rw [Stop.zoom?, known]; rfl
    rw [zooms, zooms_addToGroup, List.filterMap_cons_some first, List.eraseDupsBy.loop,
      List.any_reverse]
    cases (groups.map (·.1)).any (z == ·) with
    | true => rfl
    | false => simp

section Numbered

variable {stops : List (Stop ν)}
  (numbers : ∀ s ∈ stops, ∃ z v, s.zoomAndValue? = some (z, v) ∧ (z == z) = true)
include numbers

omit [Scalar.Ordered ν] in
theorem number_of_zoomAndValue? :
    ∀ s ∈ stops, ∀ z v, s.zoomAndValue? = some (z, v) → (z == z) = true := by
  intro s mem z v known
  obtain ⟨z', v', known', number⟩ := numbers s mem
  obtain ⟨rfl, -⟩ := Prod.mk.inj (Option.some.inj (known.symm.trans known'))
  exact number

/-- Stops of zoom and value regroup into those of each zoom, in the order of the zooms. -/
theorem regroup_eq_zoomsOf :
    regroup 0 [] stops = .ok ((zoomsOf stops).map fun z => (z, stopsAtZoom z stops)) := by
  have haveZooms : ∀ s ∈ stops, s.zoomAndValue?.isSome = true := by
    intro s mem
    obtain ⟨z, v, known, _⟩ := numbers s mem
    rw [known]
    rfl
  obtain ⟨groups, regrouped, zooms⟩ := exists_regroup_of_zooms (i := 0) [] haveZooms
  have zooms : groups.map (·.1) = zoomsOf stops := zooms
  obtain ⟨areGroups, _⟩ :=
    areGroups_of_regroup areGroups_nil (number_of_zoomAndValue? numbers) regrouped
  rw [List.nil_append] at areGroups
  have same : groups.map (fun g => (g.1, stopsAtZoom g.1 stops)) = groups := by
    refine (List.map_congr_left fun g mem => ?_).trans (List.map_id groups)
    exact Prod.ext rfl (areGroups.eq_stopsAtZoom g mem).symm
  rw [regrouped, ← zooms, List.map_map]
  exact congrArg Except.ok same.symm

theorem areGroups_zoomsOf :
    AreGroups stops ((zoomsOf stops).map fun z => (z, stopsAtZoom z stops)) := by
  have regrouped := areGroups_of_regroup areGroups_nil (number_of_zoomAndValue? numbers)
    (regroup_eq_zoomsOf numbers)
  simpa using regrouped.1

theorem stopsAtZoom_ne_nil {z : ν} (mem : z ∈ zoomsOf stops) : stopsAtZoom z stops ≠ [] := by
  obtain ⟨s, sMem, v, known⟩ := (areGroups_zoomsOf numbers).occurs _ (List.mem_map_of_mem mem)
  have same := number_of_zoomAndValue? numbers s sMem _ v known
  have kept : s.atZoom? z = some ⟨v, s.output⟩ := by simp [Stop.atZoom?, known, same]
  exact List.ne_nil_of_mem (List.mem_filterMap.mpr ⟨s, sMem, kept⟩)

theorem zoomsOf_ne_nil (nonempty : stops ≠ []) : zoomsOf stops ≠ [] := by
  obtain ⟨s, mem⟩ := List.exists_mem_of_ne_nil stops nonempty
  obtain ⟨z, v, known, _⟩ := numbers s mem
  obtain ⟨g, gMem, _⟩ := (areGroups_zoomsOf numbers).covered s mem z v known
  intro none
  simp [none] at gMem

end Numbered

end MapStyle
