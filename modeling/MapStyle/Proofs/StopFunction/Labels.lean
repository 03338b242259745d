import MapStyle.Proofs.Json.Numbers
import MapStyle.Proofs.StopFunction.Outputs

/-!
# Labels of stops

What it takes for stops to be accepted under each rule, stop by stop: an output of the property for
all of them, and under the rules that compare inputs also numbers that never descend.  In a document
these numbers are ordered, so the labels of an accepted table do not descend anywhere.
-/

set_option autoImplicit false

namespace MapStyle

/-! ## Lists related entry by entry -/

section Related

variable {α β : Type} {R : α → β → Prop} {as : List α}

theorem exists_of_forall₂ {bs : List β} (related : List.Forall₂ R as bs) {b : β} (mem : b ∈ bs) :
    ∃ a ∈ as, R a b := by
  induction related with
  | nil => cases mem
  | @cons a _ _ _ holds _ ih =>
    rcases List.mem_cons.mp mem with same | mem
    · subst same
      exact ⟨a, List.mem_cons_self, holds⟩
    · obtain ⟨a', memLater, holds⟩ := ih mem
      exact ⟨a', List.mem_cons_of_mem _ memLater, holds⟩

theorem exists_forall₂_iff : (∃ bs, List.Forall₂ R as bs) ↔ ∀ a ∈ as, ∃ b, R a b := by
  induction as with
  | nil => exact iff_of_true ⟨[], .nil⟩ (List.forall_mem_nil _)
  | cons a rest ih =>
    rw [List.forall_mem_cons, ← ih]
    constructor
    · intro related
      obtain ⟨_, related⟩ := related
      cases related with
      | cons holds later => exact ⟨⟨_, holds⟩, _, later⟩
    · intro related
      obtain ⟨⟨_, holds⟩, _, later⟩ := related
      exact ⟨_, .cons holds later⟩

theorem forall₂_of_readAll? {read? : α → Option β} {bs : List β}
    (read : readAll? read? as = some bs) : List.Forall₂ (fun a b => read? a = some b) as bs := by
  induction as generalizing bs with
  | nil =>
    cases Option.some.inj read
    exact .nil
  | cons a rest ih =>
    rw [readAll?] at read
    split at read
    · rename_i first others
      cases Option.some.inj read
      exact .cons first (ih others)
    · cases read

end Related

variable {ν : Type} [Scalar ν]

/-! ## Stops of a document -/

/-- Stops whose inputs hold no value that is no number. -/
def StopsNaNFree (stops : List (Stop ν)) : Prop := ∀ stop ∈ stops, stop.key.NaNFree

namespace StopsNaNFree

variable {stops : List (Stop ν)}

theorem zoom (free : StopsNaNFree stops) {stop : Stop ν} (mem : stop ∈ stops) {z : ν} {v : Json ν}
    (known : stop.zoomAndValue? = some (z, v)) : (z == z) = true := by
  obtain ⟨read, _⟩ := Stop.zoomAndValue?_eq_some known
  obtain ⟨j, found, number⟩ := Option.bind_eq_some_iff.mp read
  exact ((free stop mem).member found).number number

theorem group (free : StopsNaNFree stops) {groups : List (ν × List (Stop ν))}
    (regrouped : regroup 0 [] stops = .ok groups) {g : ν × List (Stop ν)} (mem : g ∈ groups) :
    StopsNaNFree g.2 := by
  intro stop inside
  rcases mem_regroup regrouped mem inside with ⟨h, none, _⟩ | ⟨t, tMem, z, known⟩
  · cases none
  · exact (free t tMem).member (Stop.zoomAndValue?_eq_some known).2

theorem key_of_ofJson? {j : Json ν} (free : j.NaNFree) {stop : Stop ν}
    (described : Stop.ofJson? j = some stop) : stop.key.NaNFree := by
  unfold Stop.ofJson? at described
  split at described
  · rename_i key output
    cases Option.some.inj described
    exact free.items key (by simp)
  · cases described

theorem of_ofJson? {j : Json ν} (free : j.NaNFree) {p : FunctionParameters ν}
    (described : FunctionParameters.ofJson? j = some p) : StopsNaNFree p.stops := by
  unfold FunctionParameters.ofJson? at described
  split at described
  · rename_i field found
    split at described
    · rename_i read
      cases Option.some.inj described
      cases field with
      | none =>
        cases Option.some.inj read
        exact nofun
      | some stops =>
        have inStops : stops.NaNFree := free.field found (by simp)
        obtain ⟨items, isItems, read⟩ := Option.bind_eq_some_iff.mp read
        cases stops with
        | arr =>
          cases Option.some.inj isItems
          intro stop mem
          obtain ⟨item, itemMem, described⟩ := exists_of_forall₂ (forall₂_of_readAll? read) mem
          exact key_of_ofJson? (inStops.items item itemMem) described
        | _ => cases isItems
    · cases described
  · cases described

end StopsNaNFree

/-! ## Labels that do not descend -/

theorem pairwise_le_of_isChain [Scalar.Ordered ν] {xs : List ν}
    (chain : xs.IsChain fun x y => ¬ y < x) (numbers : ∀ x ∈ xs, x ≤ x) : xs.Pairwise (· ≤ ·) := by
  induction xs with
  | nil => exact .nil
  | cons x rest ih =>
    cases rest with
    | nil => exact List.pairwise_singleton _ _
    | cons y rest =>
      obtain ⟨notBelow, later⟩ := List.isChain_cons_cons.mp chain
      have ordered := ih later fun z mem => numbers z (List.mem_cons_of_mem _ mem)
      have le : x ≤ y := Scalar.le_of_not_lt (numbers x (by simp)) (numbers y (by simp)) notBelow
      refine List.pairwise_cons.mpr ⟨?_, ordered⟩
      intro z mem
      rcases List.mem_cons.mp mem with same | mem
      · exact same ▸ le
      · exact Scalar.le_trans le ((List.pairwise_cons.mp ordered).1 z mem)

theorem isChain_of_pairwise_le [Scalar.Ordered ν] {xs : List ν} (ordered : xs.Pairwise (· ≤ ·)) :
    xs.IsChain fun x y => ¬ y < x := by
  refine ordered.isChain.imp ?_
  intro x y le below
  exact Scalar.not_le_of_lt below le

namespace PropertySpec

variable {s : PropertySpec ν}

theorem parseOutput_eq_ok_iff {i : Nat} {j : Json ν} {v : Value ν} :
    s.parseOutput i j = .ok v ↔ s.parseValue? j = some v := by
  unfold parseOutput
  cases s.parseValue? j <;> simp

end PropertySpec

namespace StopTable

variable {s : PropertySpec ν}

/-- A stop and its entry in the table of a rule that compares inputs. -/
def Labels (s : PropertySpec ν) (stop : Stop ν) (entry : ν × Value ν) : Prop :=
  stop.key.asNumber? = some entry.1 ∧ s.parseValue? stop.output = some entry.2

theorem isChain_after_iff {last : Option ν} {x : ν} {xs : List ν} :
    (last.toList ++ x :: xs).IsChain (fun x y => ¬ y < x) ↔
      (last.any fun l => decide (x < l)) = false ∧ (x :: xs).IsChain fun x y => ¬ y < x := by
  cases last with
  | none => simp
  | some l => simp [List.isChain_cons_cons]

theorem numericStops_eq_ok_iff {i : Nat} {last : Option ν} {stops : List (Stop ν)}
    {table : List (ν × Value ν)} :
    numericStops s i last stops = .ok table ↔
      List.Forall₂ (Labels s) stops table ∧
        (last.toList ++ table.map (·.1)).IsChain fun x y => ¬ y < x := by
  induction stops generalizing i last table with
  | nil =>
    constructor
    · intro made
      cases Except.ok.inj made
      refine ⟨.nil, ?_⟩
      cases last <;> simp
    · intro made
      cases made.1
      rfl
  | cons stop rest ih =>
    constructor
    · intro made
      obtain ⟨x, v, more, number, parsed, later, rfl⟩ := numericStops_cons made
      obtain ⟨entries, chain⟩ := ih.mp later
      refine ⟨.cons ⟨number, parsed⟩ entries, isChain_after_iff.mpr ⟨?_, chain⟩⟩
      cases descends : last.any fun l => decide (x < l) with
      | false => rfl
      | true => simp [numericStops, number, descends] at made
    · intro made
      obtain ⟨entries, chain⟩ := made
      cases entries with
      | @cons _ entry _ more this later =>
        obtain ⟨ordered, chain⟩ := isChain_after_iff.mp chain
        have output : s.parseOutput i stop.output = .ok entry.2 :=
          PropertySpec.parseOutput_eq_ok_iff.mpr this.2
        have rest : numericStops s (i + 1) (some entry.1) rest = .ok more := ih.mpr ⟨later, chain⟩
        simp [numericStops, this.1, ordered, output, rest]

theorem categoricalStops_eq_ok_iff {i : Nat} {stops : List (Stop ν)}
    {table : List (String × Value ν)} :
    categoricalStops s i stops = .ok table ↔
      List.Forall₂ (fun stop entry => entry.1 = (Value.ofJson stop.key).lookupText ∧
        s.parseValue? stop.output = some entry.2) stops table := by
  induction stops generalizing i table with
  | nil =>
    constructor
    · intro made
      cases Except.ok.inj made
      exact .nil
    · intro made
      cases made
      rfl
  | cons stop rest ih =>
    constructor
    · intro made
      obtain ⟨v, more, parsed, later, rfl⟩ := categoricalStops_cons made
      exact .cons ⟨rfl, parsed⟩ (ih.mp later)
    · intro made
      cases made with
      | @cons _ entry _ more this later =>
        have output : s.parseOutput i stop.output = .ok entry.2 :=
          PropertySpec.parseOutput_eq_ok_iff.mpr this.2
        simp [categoricalStops, output, ih.mpr later, ← this.1]

theorem labels_eq {stops : List (Stop ν)} {table : List (ν × Value ν)}
    (entries : List.Forall₂ (Labels s) stops table) :
    table.map (·.1) = stops.filterMap fun stop => stop.key.asNumber? := by
  induction entries with
  | nil => rfl
  | cons labels _ ih => simp only [List.map_cons, List.filterMap_cons, labels.1, ih]

theorem numbers_of_labels {stops : List (Stop ν)} (free : StopsNaNFree stops)
    {table : List (ν × Value ν)} (entries : List.Forall₂ (Labels s) stops table) :
    ∀ x ∈ table.map (·.1), (x == x) = true := by
  intro x mem
  obtain ⟨entry, entryMem, same⟩ := List.mem_map.mp mem
  obtain ⟨stop, stopMem, labels⟩ := exists_of_forall₂ entries entryMem
  exact (free stop stopMem).number (same ▸ labels.1)

/-- The labels of an accepted table are numbers and do not descend. -/
theorem ascending_of_make [Scalar.Ordered ν] {type : FunctionType} {stops : List (Stop ν)}
    {values : List (ν × Value ν)} (free : StopsNaNFree stops)
    (made : make s type stops = .ok (.numeric values)) :
    values ≠ [] ∧ List.Forall₂ (Labels s) stops values ∧
      (∀ x ∈ values.map (·.1), (x == x) = true) ∧ (values.map (·.1)).Pairwise (· ≤ ·) := by
  cases made_of_make made with
  | numeric _ nonempty listed =>
    obtain ⟨entries, chain⟩ := numericStops_eq_ok_iff.mp listed
    have numbers := numbers_of_labels free entries
    refine ⟨?_, entries, numbers, pairwise_le_of_isChain chain ?_⟩
    · intro empty
      subst empty
      exact nonempty (List.forall₂_nil_right_iff.mp entries)
    · intro x mem
      exact Scalar.le_of_beq (numbers x mem)

end StopTable

end MapStyle
