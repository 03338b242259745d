import MapStyle.Proofs.Compile.Documents

/-!
# Names that a document mentions

Compiling a document looks up no other names than those of the variables that stand in it.  So two
scopes that bind these alike compile the document alike: names that the document does not mention
may be bound or not, and so may names that are bound again further inside.
-/

set_option autoImplicit false

namespace MapStyle

namespace Json

variable {ν : Type}

/-- A document stands in another: it is that document, or stands in an item or a member of it. -/
inductive Part : Json ν → Json ν → Prop
  | whole (j : Json ν) : Part j j
  | item {k j : Json ν} {items : List (Json ν)} : j ∈ items → Part k j → Part k (.arr items)
  | member {k : Json ν} {m : String × Json ν} {members : List (String × Json ν)} : m ∈ members →
    Part k m.2 → Part k (.obj members)

/-- A variable of a name stands in a document. -/
def Mentions (j : Json ν) (name : String) : Prop := Part (.arr [.str "var", .str name]) j

theorem Part.trans {i j k : Json ν} (inner : Part i j) (outer : Part j k) : Part i k := by
  induction outer with
  | whole => exact inner
  | item mem _ ih => exact .item mem ih
  | member mem _ ih => exact .member mem ih

theorem Part.items {items : List (Json ν)} {root : Json ν} (part : Part (.arr items) root)
    {j : Json ν} (mem : j ∈ items) : Part j root :=
  Part.trans (.item mem (.whole j)) part

theorem Part.members {members : List (String × Json ν)} {root : Json ν}
    (part : Part (.obj members) root) {m : String × Json ν} (mem : m ∈ members) : Part m.2 root :=
  Part.trans (.member mem (.whole m.2)) part

end Json

/-! ## Compilations in lockstep -/

/-- Compilations that add the same diagnostics, and have no results or related ones. -/
def Compiling.Lockstep {ι α : Type} (R : (ι → α) → Prop) (m : ι → Compiling α) : Prop :=
  ∀ ds, ∃ ds', (∀ i, m i ds = some (none, ds')) ∨
    ∃ a, R a ∧ ∀ i, m i ds = some (some (a i), ds')

namespace Compiling.Lockstep

variable {ι α β : Type} {R : (ι → α) → Prop} {S : (ι → β) → Prop} {m : ι → Compiling α}

theorem yields {a : ι → α} (related : R a) : Lockstep R fun i => pure (a i) :=
  fun ds => ⟨ds, Or.inr ⟨a, related, fun _ => rfl⟩⟩

theorem andThen {next : ι → α → Compiling β} (first : Lockstep R m)
    (later : ∀ a, R a → Lockstep S fun i => next i (a i)) :
    Lockstep S fun i => m i >>= next i := by
  intro ds
  show ∃ ds', (∀ i, (m i).andThen (next i) ds = some (none, ds')) ∨
    ∃ b, S b ∧ ∀ i, (m i).andThen (next i) ds = some (some (b i), ds')
  obtain ⟨rest, stopped | ⟨a, related, done⟩⟩ := first ds
  · exact ⟨rest, Or.inl fun i => by simp only [Compiling.andThen, stopped]⟩
  · simp only [Compiling.andThen, done]
    exact later a related rest

theorem both {n : ι → Compiling β} (first : Lockstep R m) (second : Lockstep S n) :
    Lockstep (fun ab => (R fun i => (ab i).1) ∧ S fun i => (ab i).2) fun i => (m i).both (n i) := by
  intro ds
  obtain ⟨rest, stopped | ⟨a, relatedA, doneA⟩⟩ := first ds
  · obtain ⟨rest', outcome⟩ := second rest
    refine ⟨rest', Or.inl fun i => ?_⟩
    rcases outcome with stopped' | ⟨b, _, doneB⟩
    · simp [Compiling.both, stopped, stopped']
    · simp [Compiling.both, stopped, doneB]
  · obtain ⟨rest', stopped | ⟨b, relatedB, doneB⟩⟩ := second rest
    · exact ⟨rest', Or.inl fun i => by simp [Compiling.both, doneA, stopped]⟩
    · refine ⟨rest', Or.inr ⟨fun i => (a i, b i), ⟨relatedA, relatedB⟩, fun i => ?_⟩⟩
      simp [Compiling.both, doneA, doneB]

theorem eq (lockstep : Lockstep R m) {i j : ι} (same : ∀ a, R a → a i = a j) : m i = m j := by
  funext ds
  obtain ⟨rest, stopped | ⟨a, related, done⟩⟩ := lockstep ds
  · rw [stopped, stopped]
  · rw [done, done, same a related]

end Compiling.Lockstep

def Judgement.lockstep (ι : Type) : Judgement ι where
  Holds _ R m := Compiling.Lockstep R m
  yields related := .yields related
  andThen holds later := holds.andThen later
  both first second := first.both second
  Lenient := False
  endless admitted := admitted.elim
  fails _ _ _ := ⟨_, Or.inl fun _ => rfl⟩
  above _ holds := holds

/-! ## One expression in all of a family -/

section Same

variable {ι ν : Type}

def Expr.Same (t : Ty) (e : ι → Expr ν) : Prop := (∀ i, (e i).ty = t) ∧ ∀ i j, e i = e j

theorem Expr.Same.option {e : Option (ι → Expr ν)} (same : ∀ e' ∈ e, ∃ t, Expr.Same t e')
    (i j : ι) : e.map (· i) = e.map (· j) := by
  cases e with
  | none => rfl
  | some e =>
    obtain ⟨_, _, same⟩ := same e rfl
    exact congrArg some (same i j)

end Same

variable {ι ν : Type} [Scalar ν]

def Congruence.same (ι ν : Type) [Scalar ν] : Congruence ι ν where
  Together := Expr.Same
  ty_eq together := together.1
  literal _ _ := ⟨fun _ => rfl, fun _ _ => rfl⟩
  indexOf start needle haystack startSame := by
    refine ⟨fun _ => rfl, fun i j => ?_⟩
    simp only [needle.2 i j, haystack.2 i j, Expr.Same.option startSame i j]
  get object key objectSame := by
    refine ⟨fun _ => rfl, fun i j => ?_⟩
    simp only [key.2 i j, Expr.Same.option objectSame i j]
  zoom := ⟨fun _ => rfl, fun _ _ => rfl⟩
  access _ := ⟨fun _ => rfl, fun _ _ => rfl⟩
  collator locale case diacritic localeSame := by
    refine ⟨fun _ => rfl, fun i j => ?_⟩
    simp only [case.2 i j, diacritic.2 i j, Expr.Same.option localeSame i j]
  resolvedLocale c := ⟨fun _ => rfl, fun i j => congrArg Expr.resolvedLocale (c.2 i j)⟩
  compare c through lhs rhs throughSame := by
    refine ⟨fun _ => rfl, fun i j => ?_⟩
    simp only [lhs.2 i j, rhs.2 i j, Expr.Same.option throughSame i j]
  assertion t args same := by
    refine ⟨fun _ => rfl, fun i j => congrArg (Expr.assertion t) (List.map_congr_left ?_)⟩
    intro a mem
    obtain ⟨_, _, same⟩ := same a mem
    exact same i j
  coercion t arg := ⟨fun _ => rfl, fun i j => congrArg (Expr.coercion t) (arg.2 i j)⟩
  interpolate curve space _ input _ _ outputs := by
    refine ⟨fun _ => rfl, fun i j => ?_⟩
    simp only [input.2 i j]
    refine congrArg _ (List.map_congr_left ?_)
    intro s mem
    obtain ⟨_, same, _⟩ := outputs s mem
    rw [same.2 i j]

/-! ## Compilers that look no names up -/

/-- Compilers over the usual operators whose finish looks no names up, and keeps an expression or
puts a literal of its type in its place. -/
structure Compiler.IsUsual (c : Compiler ν) : Prop where
  registry : c.registry = .standard
  nameless : ∀ path S S' expected e,
    c.finish ⟨path, S, expected⟩ e = c.finish ⟨path, S', expected⟩ e
  finish : ∀ site e, (∃ fault, c.finish site e = site.fail fault) ∨
    ∃ e', c.finish site e = pure e' ∧ e'.ty = e.ty ∧ (e' = e ∨ ∃ v t, e' = .literal v t)

theorem Scope.get?_extend {ν : Type} (S : Scope ν) (bindings : List (String × Expr ν))
    (name : String) :
    (S.extend bindings).get? name = (bindings.reverse.lookup name).or (S.get? name) := by
  rw [get?, extend, List.findSome?_cons]
  cases bindings.reverse.lookup name <;> rfl

namespace Compiler

theorem isUsual_withoutFolding : (withoutFolding .standard : Compiler ν).IsUsual where
  registry := rfl
  nameless _ _ _ _ _ := rfl
  finish _ e := Or.inr ⟨e, rfl, rfl, Or.inl rfl⟩

theorem isUsual_ofRegistry {ν : Type} [Platform ν] :
    (ofRegistry .standard : Compiler ν).IsUsual where
  registry := rfl
  nameless _ _ _ _ _ := rfl
  finish site e := by
    show (∃ fault, foldConstant site e = site.fail fault) ∨ ∃ e', foldConstant site e = pure e' ∧ _
    unfold foldConstant
    split
    · split
      · rename_i v _
        exact Or.inr ⟨_, rfl, rfl, Or.inr ⟨v, e.ty, rfl⟩⟩
      · exact Or.inl ⟨_, rfl⟩
    · exact Or.inr ⟨e, rfl, rfl, Or.inl rfl⟩

/-! ## Scopes that agree on what is mentioned -/

variable {c : Compiler ν} {root : Json ν}

/-- Scopes that bind alike the names that a document mentions. -/
def AgreeOn {ι : Type} (root : Json ν) (scope : ι → Scope ν) : Prop :=
  ∀ name, root.Mentions name → ∀ i j, (scope i).get? name = (scope j).get? name

omit [Scalar ν] in
theorem AgreeOn.extend {scope : ι → Scope ν} (agree : AgreeOn root scope)
    {bs : List (String × (ι → Expr ν))} (same : ∀ b ∈ bs, ∃ t, Expr.Same t b.2) :
    AgreeOn root fun i => (scope i).extend (bs.map fun b => (b.1, b.2 i)) := by
  intro name mentioned i j
  have bound : ∀ e ∈ bs.reverse.lookup name, ∃ t, Expr.Same t e := by
    intro e found
    exact same _ (List.mem_reverse.mp (mem_of_lookup found))
  simp only [Scope.get?_extend, ← List.map_reverse, lookup_map_at, agree name mentioned i j,
    Expr.Same.option bound i j]

theorem inStep_lockstep (usual : c.IsUsual) :
    InStep (Judgement.lockstep Bool) (Congruence.same Bool ν) .standard fun _ => c where
  standard := Registry.isStandard_standard
  registry _ := usual.registry
  quotes := Or.inr Registry.quotesScalars_standard
  finish {t e} path scope expected same := by
    have one (i : Bool) : c.finish ⟨path, scope i, expected⟩ (e i) =
        c.finish ⟨path, scope true, expected⟩ (e true) := by
      rw [same.2 i true, usual.nameless path (scope i) (scope true)]
    show Compiling.Lockstep _ fun i => c.finish ⟨path, scope i, expected⟩ (e i)
    simp only [one]
    rcases usual.finish ⟨path, scope true, expected⟩ (e true) with
      ⟨fault, failed⟩ | ⟨e', done, ty, _⟩
    · rw [failed]
      exact (Judgement.lockstep Bool).fails [] fault
    · rw [done]
      have one : Expr.Same t fun _ : Bool => e' :=
        ⟨fun _ => ty.trans (same.1 true), fun _ _ => rfl⟩
      exact Compiling.Lockstep.yields one

/-- The scope is looked at for the variables of a document alone. -/
theorem fitNames_lockstep (usual : c.IsUsual) (root : Json ν) :
    FitNames (Judgement.lockstep Bool) (fun _ : Unit => Congruence.same Bool ν)
      (fun _ => AgreeOn root) (fun _ => c) fun j => j.Part root where
  items part j mem := part.items mem
  members part m mem := part.members mem
  numbers _ _ _ _ _ := trivial
  inStep _ := inStep_lockstep usual
  var {_ scope} path expected js part agree := by
    show Compiling.Lockstep _ fun i => Operator.var _ _
    rcases js with _ | ⟨j, _ | ⟨j', rest⟩⟩
    · exact (Judgement.lockstep Bool).fails [] _
    · simp only [Operator.var, List.map_cons, List.map_nil, operand_json]
      cases j with
      | str name =>
        have one := fun i => agree name part i true
        simp only [one]
        cases (scope true).get? name with
        | none => exact (Judgement.lockstep Bool).fails [1] _
        | some bound =>
          have one : Expr.Same bound.ty fun _ : Bool => Expr.var name bound :=
            ⟨fun _ => rfl, fun _ _ => rfl⟩
          exact Compiling.Lockstep.yields (Congruence.fits_none one)
      | _ => exact (Judgement.lockstep Bool).fails [] _
    · exact (Judgement.lockstep Bool).fails [] _
  letIn {_ scope} path expected js part ready agree := by
    have extended : ∀ bs : List (String × (Bool → Expr ν)), (∀ b ∈ bs, ∃ t, Expr.Same t b.2) →
        AgreeOn root (fun i => (scope i).extend (bs.map fun b => (b.1, b.2 i))) ∧
          ∀ (t : Ty) (body : Bool → Expr ν), Expr.Same t body →
            Expr.Same t fun i => .letIn (bs.map fun b => (b.1, b.2 i)) (body i) := by
      intro bs all
      refine ⟨AgreeOn.extend agree all, fun t body same => ⟨fun i => same.1 i, fun i j => ?_⟩⟩
      simp only [same.2 i j]
      refine congrArg (Expr.letIn · _) (List.map_congr_left ?_)
      intro b mem
      obtain ⟨_, same⟩ := all b mem
      rw [same.2 i j]
    have parsed : (Judgement.lockstep Bool).Holds path ((Congruence.same Bool ν).Fits none) fun i =>
        Operator.letIn _ ⟨path, scope i, expected⟩ :=
      Operator.letIn_holds_of_extend (ready ()) (ready ()) agree extended
    simpa only [Forms.at, List.map_map, Function.comp_def] using parsed

theorem compile_congr (usual : c.IsUsual) {j : Json ν} {S S' : Scope ν}
    (agree : ∀ name, j.Mentions name → S.get? name = S'.get? name) (path : List Nat)
    (expected : Option Ty) :
    c.compile j ⟨path, S, expected⟩ = c.compile j ⟨path, S', expected⟩ := by
  have agreeOn : AgreeOn j fun first : Bool => if first then S else S' := by
    intro name mentioned first second
    have same := agree name mentioned
    cases first <;> cases second <;> simp [same]
  have lockstep := (fitNames_lockstep usual j).fitForms.compile_holds (.whole j) (s := ()) agreeOn
    path expected
  refine Compiling.Lockstep.eq lockstep (i := true) (j := false) ?_
  rintro e ⟨t, same, _⟩
  exact same.2 true false

theorem compile_extend_of_unmentioned (usual : c.IsUsual) {j : Json ν} (S : Scope ν)
    {bindings : List (String × Expr ν)} (unmentioned : ∀ b ∈ bindings, ¬ j.Mentions b.1)
    (path : List Nat) (expected : Option Ty) :
    c.compile j ⟨path, S.extend bindings, expected⟩ = c.compile j ⟨path, S, expected⟩ := by
  refine compile_congr usual (fun name mentioned => ?_) path expected
  rw [Scope.get?_extend]
  cases found : bindings.reverse.lookup name with
  | none => rfl
  | some e => exact absurd mentioned (unmentioned _ (List.mem_reverse.mp (mem_of_lookup found)))

theorem compile_drop_of_shadowed (usual : c.IsUsual) (j : Json ν)
    (inside around : List (List (String × Expr ν))) {outer : List (String × Expr ν)}
    (shadowed : ∀ b ∈ outer, ∃ frame ∈ inside, ∃ b' ∈ frame, b'.1 = b.1) (path : List Nat)
    (expected : Option Ty) :
    c.compile j ⟨path, ⟨inside ++ outer :: around⟩, expected⟩ =
      c.compile j ⟨path, ⟨inside ++ around⟩, expected⟩ := by
  refine compile_congr usual (fun name _ => ?_) path expected
  simp only [Scope.get?, List.findSome?_append, List.findSome?_cons]
  cases found : outer.reverse.lookup name with
  | none => rfl
  | some e =>
    obtain ⟨frame, frameMem, b, mem, rfl⟩ :=
      shadowed _ (List.mem_reverse.mp (mem_of_lookup found))
    have bound : (inside.findSome? fun frame => frame.reverse.lookup b.1).isSome = true := by
      rw [List.findSome?_isSome_iff]
      refine ⟨frame, frameMem, ?_⟩
      rw [List.lookup_isSome_iff]
      exact ⟨b, List.mem_reverse.mpr mem, by simp⟩
    obtain ⟨e', bound⟩ := Option.isSome_iff_exists.mp bound
    simp [bound]

end Compiler

end MapStyle
