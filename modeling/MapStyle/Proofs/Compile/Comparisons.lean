import MapStyle.Collation.Engine
import MapStyle.Proofs.Comparisons
import MapStyle.Proofs.Compile.Folding
import MapStyle.Proofs.Compile.Placeless

/-!
# Compiled comparisons

Comparisons of the same operands, or of operands exchanged, compile from the same parts: the
operands and the collator compile to the same expressions wherever they stand, and are admitted
alike.  So the laws of comparisons hold of what their forms compile to.
-/

set_option autoImplicit false

namespace MapStyle

open Comparison (Agree)

variable {ν : Type} [Platform ν]

def Json.comparison (c : Comparison) (a b : Json ν) (through : Option (Json ν)) : Json ν :=
  .arr (.str c.symbol :: a :: b :: through.toList)

namespace Compiler

def usual (ν : Type) [Platform ν] : Compiler ν := ofRegistry .standard

theorem usual_yields_iff {j : Json ν} {site : Site ν} {ds : List Diagnostic} {e : Expr ν} :
    ((usual ν).compile j site).result? ds = some e ↔
      (usual ν).Yields j site.scope site.expected e :=
  compile_result?_eq_some_iff Registry.isStandard_standard

/-- The collator that a third argument compiles to, which texts are compared through. -/
inductive YieldsThrough (S : Scope ν) (l r : Expr ν) : Option (Json ν) → Option (Expr ν) → Prop
  | absent : YieldsThrough S l r none none
  | given {j : Json ν} {k : Expr ν} :
    (Operator.mayBeText l.ty || Operator.mayBeText r.ty) = true →
    (usual ν).Yields j S (some .collator) k → YieldsThrough S l r (some j) (some k)

/-- Operands that a comparison admits in a scope. -/
structure ComparedOperands (c : Comparison) (S : Scope ν) (a b : Json ν) (l r : Expr ν) : Prop where
  lhs : (usual ν).Yields a S (some .value) l
  rhs : (usual ν).Yields b S (some .value) r
  supportsLhs : c.supports l.ty = true
  supportsRhs : c.supports r.ty = true
  comparable : Operator.areComparable l.ty r.ty = true

structure ComparisonParts (c : Comparison) (S : Scope ν) (a b : Json ν) (through : Option (Json ν))
    (l r : Expr ν) (k : Option (Expr ν)) : Prop extends ComparedOperands c S a b l r where
  through : YieldsThrough S l r through k

/-- A comparison of parts compiles for an expected type. -/
structure Compares (c : Comparison) (S : Scope ν) (expected : Option Ty) (a b : Json ν)
    (through : Option (Json ν)) (l r : Expr ν) (k : Option (Expr ν)) : Prop
    extends ComparisonParts c S a b through l r k where
  accepted : ∀ t ∈ expected, t.accepts .boolean = true
  passes : (Operator.comparisonNode c l r k).passes = true

section Parts

variable {c : Comparison} {site : Site ν} {ds : List Diagnostic} {a b : Json ν}

theorem comparisonOperand_eq_some_iff {position : Nat} {e : Expr ν} :
    (Operator.comparisonOperand c site position ((usual ν).operand a)).result? ds = some e ↔
      (usual ν).Yields a site.scope (some .value) e ∧ c.supports e.ty = true := by
  unfold Operator.comparisonOperand
  constructor
  · intro found
    obtain ⟨e', _, yields, rest⟩ := Compiling.exists_of_result?_bind found
    have yields := usual_yields_iff.mp yields
    split at rest
    · rename_i supported
      cases Option.some.inj rest
      exact ⟨yields, supported⟩
    · cases rest
  · intro found
    refine Compiling.result?_bind_eq_some (usual_yields_iff.mpr found.1) fun _ => ?_
    rw [if_pos found.2]
    rfl

theorem comparisonOperands_eq_some_iff {l r : Expr ν} :
    (Operator.comparisonOperands c site ((usual ν).operand a) ((usual ν).operand b)).result? ds =
        some (l, r) ↔ ComparedOperands c site.scope a b l r := by
  unfold Operator.comparisonOperands
  constructor
  · intro found
    obtain ⟨l', _, isLhs, rest⟩ := Compiling.exists_of_result?_bind found
    obtain ⟨r', _, isRhs, rest⟩ := Compiling.exists_of_result?_bind rest
    obtain ⟨lhs, supportsLhs⟩ := comparisonOperand_eq_some_iff.mp isLhs
    obtain ⟨rhs, supportsRhs⟩ := comparisonOperand_eq_some_iff.mp isRhs
    split at rest
    · rename_i comparable
      cases Option.some.inj rest
      exact ⟨lhs, rhs, supportsLhs, supportsRhs, comparable⟩
    · cases rest
  · intro operands
    have isLhs := And.intro operands.lhs operands.supportsLhs
    have isRhs := And.intro operands.rhs operands.supportsRhs
    refine Compiling.result?_bind_eq_some (comparisonOperand_eq_some_iff.mpr isLhs) fun _ => ?_
    refine Compiling.result?_bind_eq_some (comparisonOperand_eq_some_iff.mpr isRhs) fun _ => ?_
    rw [if_pos operands.comparable]
    rfl

theorem settle_eq_some_iff {node e : Expr ν} (boolean : node.ty = .boolean) :
    ((usual ν).settle site node).result? ds = some e ↔
      (∀ t ∈ site.expected, t.accepts .boolean = true) ∧ node.passes = true ∧ e = node.folded := by
  have finished (ds : List Diagnostic) : (foldConstant site node).result? ds = some e ↔
      node.passes = true ∧ e = node.folded := by
    constructor
    · intro folded
      obtain ⟨_, done⟩ := Compiling.result?_eq_some.mp folded
      exact foldConstant_eq_some done
    · intro folded
      rw [foldConstant_of_passes site folded.1, folded.2]
      rfl
  unfold settle
  cases site.expected with
  | none => exact (finished ds).trans ⟨fun done => ⟨nofun, done⟩, fun done => done.2⟩
  | some t =>
    have notAsserted : t.isAsserted .boolean = false := rfl
    have notCoerced : t.isCoerced .boolean = false := by cases t <;> rfl
    have annotated : annotate site t node =
        if t.accepts .boolean then pure node else site.fail (.typeMismatch t .boolean) := by
      simp [annotate, boolean, notAsserted, notCoerced]
    dsimp only
    rw [annotated]
    by_cases accepts : t.accepts .boolean = true
    · rw [if_pos accepts]
      constructor
      · intro found
        obtain ⟨node', _, same, done⟩ := Compiling.exists_of_result?_bind found
        cases Option.some.inj same
        exact ⟨by rintro u ⟨⟩; exact accepts, (finished _).mp done⟩
      · intro found
        exact Compiling.result?_bind_eq_some rfl fun ds => (finished ds).mpr found.2
    · rw [if_neg accepts]
      constructor
      · intro found
        obtain ⟨_, _, impossible, _⟩ := Compiling.exists_of_result?_bind found
        cases impossible
      · intro found
        exact absurd (found.1 t rfl) accepts

theorem compare_eq_some_iff {through : Option (Json ν)} {constant : Json ν → Operand ν}
    {node : Expr ν} :
    (Operator.compare ⟨c.symbol, (a :: b :: through.toList).map (usual ν).operand, constant⟩
        site).result? ds = some node ↔
      ∃ l r k, ComparisonParts c site.scope a b through l r k ∧
        node = Operator.comparisonNode c l r k := by
  have symbol : Comparison.ofSymbol? c.symbol = some c := by cases c <;> rfl
  cases through with
  | none =>
    simp only [Operator.compare, symbol, Option.toList_none, List.map_cons, List.map_nil]
    constructor
    · intro found
      obtain ⟨⟨l, r⟩, _, operands, made⟩ := Compiling.exists_of_result?_bind found
      have operands := comparisonOperands_eq_some_iff.mp operands
      exact ⟨l, r, none, ⟨operands, .absent⟩, (Option.some.inj made).symm⟩
    · intro found
      obtain ⟨l, r, k, parts, rfl⟩ := found
      cases parts.through
      exact Compiling.result?_bind_eq_some
        (comparisonOperands_eq_some_iff.mpr parts.toComparedOperands) fun _ => rfl
  | some j =>
    simp only [Operator.compare, symbol, Option.toList_some, List.map_cons, List.map_nil]
    constructor
    · intro found
      obtain ⟨⟨l, r⟩, _, operands, made⟩ := Compiling.exists_of_result?_bind found
      have operands := comparisonOperands_eq_some_iff.mp operands
      dsimp only at made
      split at made
      · rename_i text
        obtain ⟨k, _, collator, made⟩ := Compiling.exists_of_result?_bind made
        have through := YieldsThrough.given text (usual_yields_iff.mp collator)
        exact ⟨l, r, some k, ⟨operands, through⟩, (Option.some.inj made).symm⟩
      · cases made
    · intro found
      obtain ⟨l, r, k, parts, rfl⟩ := found
      refine Compiling.result?_bind_eq_some
        (comparisonOperands_eq_some_iff.mpr parts.toComparedOperands) fun _ => ?_
      cases parts.through with
      | given text collator =>
        dsimp only
        rw [if_pos text]
        exact Compiling.result?_bind_eq_some (usual_yields_iff.mpr collator) fun _ => rfl

theorem compile_comparison_iff {through : Option (Json ν)} {e : Expr ν} :
    ((usual ν).compile (Json.comparison c a b through) site).result? ds = some e ↔
      ∃ l r k, Compares c site.scope site.expected a b through l r k ∧
        e = (Operator.comparisonNode c l r k).folded := by
  have found : (Registry.standard : Registry ν).get? c.symbol = some Operator.compare := by
    have named : Builtin.named.reverse.lookup c.symbol = some .compare := by cases c <;> rfl
    exact Registry.get?_standard named
  rw [Json.comparison, usual, compile_form found]
  constructor
  · intro compiled
    obtain ⟨node, _, parsed, settled⟩ := Compiling.exists_of_result?_bind compiled
    obtain ⟨l, r, k, parts, rfl⟩ := compare_eq_some_iff.mp parsed
    obtain ⟨accepted, passes, rfl⟩ :=
      (settle_eq_some_iff (Operator.comparisonNode_ty c l r k)).mp settled
    exact ⟨l, r, k, ⟨parts, accepted, passes⟩, rfl⟩
  · intro compiles
    obtain ⟨l, r, k, compares, rfl⟩ := compiles
    refine Compiling.result?_bind_eq_some
      (compare_eq_some_iff.mpr ⟨l, r, k, compares.toComparisonParts, rfl⟩) fun _ => ?_
    exact (settle_eq_some_iff (Operator.comparisonNode_ty c l r k)).mpr
      ⟨compares.accepted, compares.passes, rfl⟩

end Parts

/-! ## Laws -/

/-- Neither of two compilations has a result, or both have and in every context both results fail or
give answers that are related. -/
inductive Agreeing (R : Bool → Bool → Prop) : Option (Expr ν) → Option (Expr ν) → Prop
  | neither : Agreeing R none none
  | both {e e' : Expr ν} : (∀ env, Agree R (e.eval env) (e'.eval env)) →
    Agreeing R (some e) (some e')

theorem Agreeing.exists_of_some {R : Bool → Bool → Prop} {e? e'? : Option (Expr ν)}
    (agreeing : Agreeing R e? e'?) {e : Expr ν} (result : e? = some e) :
    ∃ e', e'? = some e' ∧ ∀ env, Agree R (e.eval env) (e'.eval env) := by
  cases agreeing with
  | neither => cases result
  | @both _ e' agree =>
    cases result
    exact ⟨e', rfl, agree⟩

theorem agreeing_of_exists {R : Bool → Bool → Prop} {e? e'? : Option (Expr ν)}
    (forth : ∀ e, e? = some e → ∃ e', e'? = some e' ∧ ∀ env, Agree R (e.eval env) (e'.eval env))
    (back : ∀ e', e'? = some e' → ∃ e, e? = some e) : Agreeing R e? e'? := by
  cases e? with
  | none =>
    cases e'? with
    | none => exact .neither
    | some e' =>
      obtain ⟨e, impossible⟩ := back e' rfl
      cases impossible
  | some e =>
    obtain ⟨e', rfl, agree⟩ := forth e rfl
    exact .both agree

section Laws

variable {c : Comparison} {S : Scope ν} {expected : Option Ty} {a b : Json ν}
  {through : Option (Json ν)} {l r : Expr ν} {k : Option (Expr ν)}

theorem YieldsThrough.swap (yields : YieldsThrough S l r through k) :
    YieldsThrough S r l through k := by
  cases yields with
  | absent => exact .absent
  | given text collator => exact .given (by rwa [Bool.or_comm]) collator

theorem ComparisonParts.converse (parts : ComparisonParts c S a b through l r k) :
    ComparisonParts c.converse S b a through r l k where
  lhs := parts.rhs
  rhs := parts.lhs
  supportsLhs := by rw [Comparison.supports_converse, parts.supportsRhs]
  supportsRhs := by rw [Comparison.supports_converse, parts.supportsLhs]
  comparable := by
    have comparable := parts.comparable
    simp only [Operator.areComparable, Bool.or_eq_true, beq_iff_eq] at comparable ⊢
    rcases comparable with (kinds | left) | right
    · exact Or.inl (Or.inl kinds.symm)
    · exact Or.inr left
    · exact Or.inl (Or.inr right)
  through := parts.through.swap

theorem ComparisonParts.of_supports {d : Comparison} (parts : ComparisonParts c S a b through l r k)
    (alike : ∀ t, d.supports t = c.supports t) : ComparisonParts d S a b through l r k :=
  { parts with
    supportsLhs := by rw [alike, parts.supportsLhs]
    supportsRhs := by rw [alike, parts.supportsRhs] }

theorem Compares.equal (compares : Compares .ne S expected a b through l r k) :
    Compares .eq S expected a b through l r k :=
  ⟨compares.of_supports fun _ => rfl, compares.accepted,
    (Operator.comparisonNode_ne l r k).passes ▸ compares.passes⟩

theorem Compares.unequal (compares : Compares .eq S expected a b through l r k) :
    Compares .ne S expected a b through l r k :=
  ⟨compares.of_supports fun _ => rfl, compares.accepted,
    (Operator.comparisonNode_ne l r k).passes.symm ▸ compares.passes⟩

theorem YieldsThrough.unique {k' : Option (Expr ν)} (yields : YieldsThrough S l r through k)
    (yields' : YieldsThrough S l r through k') : k = k' := by
  cases yields with
  | absent =>
    cases yields'
    rfl
  | given _ collator =>
    cases yields' with
    | given _ collator' =>
      exact congrArg some (collator.unique Registry.isStandard_standard collator')

/-- Whatever collator a third argument yields, its engine puts any two texts in opposite orders when
they are exchanged, as every total preorder does. -/
def CollatesInOrder (S : Scope ν) (through : Option (Json ν)) : Prop :=
  ∀ j ∈ through, ∀ e, (usual ν).Yields j S (some .collator) e →
    ∀ env (k : Collator), e.eval env = .ok (.collator k) → Std.OrientedCmp k.engine.compare

theorem YieldsThrough.oriented (yields : YieldsThrough S l r through k)
    (inOrder : CollatesInOrder S through) : ∀ e ∈ k, ∀ env (collator : Collator),
      e.eval env = .ok (.collator collator) → Std.OrientedCmp collator.engine.compare := by
  cases yields with
  | absent => exact nofun
  | @given j k _ collator =>
    intro e mem
    cases mem
    exact inOrder j rfl k collator

variable [Scalar.Ordered ν]

theorem Compares.converse (inOrder : CollatesInOrder S through)
    (compares : Compares c S expected a b through l r k) :
    Compares c.converse S expected b a through r l k := by
  have alike := Operator.comparisonNode_converse c l r (compares.through.oriented inOrder)
  exact ⟨compares.toComparisonParts.converse, compares.accepted, alike.passes ▸ compares.passes⟩

end Laws

section Coherence

def compared (site : Site ν) (ds : List Diagnostic) (through : Option (Json ν)) (c : Comparison)
    (a b : Json ν) : Option (Expr ν) :=
  ((usual ν).compile (Json.comparison c a b through) site).result? ds

/-- A comparison of two documents compiles, and in a context it does not fail but has an answer. -/
def Answers (site : Site ν) (ds : List Diagnostic) (through : Option (Json ν)) (env : Env ν)
    (a b : Json ν) (c : Comparison) (x : Bool) : Prop :=
  ∃ e, compared site ds through c a b = some e ∧ e.eval env = .ok (.boolean x)

variable {site : Site ν} {ds : List Diagnostic} {through : Option (Json ν)} {a b : Json ν}

theorem compared_ne : Agreeing (fun x y => x = !y) (compared site ds through .ne a b)
    (compared site ds through .eq a b) := by
  apply agreeing_of_exists
  · intro e compiled
    obtain ⟨l, r, k, compares, rfl⟩ := compile_comparison_iff.mp compiled
    refine ⟨_, compile_comparison_iff.mpr ⟨l, r, k, compares.equal, rfl⟩, ?_⟩
    exact (Operator.comparisonNode_ne l r k).folded
  · intro e compiled
    obtain ⟨l, r, k, compares, rfl⟩ := compile_comparison_iff.mp compiled
    exact ⟨_, compile_comparison_iff.mpr ⟨l, r, k, compares.unequal, rfl⟩⟩

variable [Scalar.Ordered ν]

theorem compared_converse (inOrder : CollatesInOrder site.scope through) (c : Comparison) :
    Agreeing (· = ·) (compared site ds through c a b)
      (compared site ds through c.converse b a) := by
  apply agreeing_of_exists
  · intro e compiled
    obtain ⟨l, r, k, compares, rfl⟩ := compile_comparison_iff.mp compiled
    refine ⟨_, compile_comparison_iff.mpr ⟨r, l, k, compares.converse inOrder, rfl⟩, ?_⟩
    have turned := compares.converse inOrder
    have alike := Operator.comparisonNode_converse c.converse r l
      (turned.through.oriented inOrder)
    rw [Comparison.converse_converse] at alike
    exact alike.folded
  · intro e compiled
    obtain ⟨r, l, k, compares, rfl⟩ := compile_comparison_iff.mp compiled
    have turned := compares.converse inOrder
    rw [Comparison.converse_converse] at turned
    exact ⟨_, compile_comparison_iff.mpr ⟨l, r, k, turned, rfl⟩⟩

theorem exists_order_of_answers {env : Env ν} {l r : Expr ν} {v w : Value ν}
    (lhs : (usual ν).Yields a site.scope (some .value) l)
    (rhs : (usual ν).Yields b site.scope (some .value) r) (isV : l.eval env = .ok v)
    (isW : r.eval env = .ok w) (ranked : Ranked v w) :
    ∃ o : Ordering, ∀ c x, Answers site ds through env a b c x → x = c.holds o := by
  by_cases answered : ∃ c x, Answers site ds through env a b c x
  · obtain ⟨_, _, _, compiled, _⟩ := answered
    obtain ⟨l', r', k, compares, _⟩ := compile_comparison_iff.mp compiled
    obtain rfl := lhs.unique Registry.isStandard_standard compares.lhs
    obtain rfl := rhs.unique Registry.isStandard_standard compares.rhs
    obtain ⟨o, answers⟩ := Operator.exists_order_of_node isV isW ranked k
    refine ⟨o, fun c x => ?_⟩
    intro answer
    obtain ⟨e, compiled, evaluated⟩ := answer
    obtain ⟨l', r', k', compares', rfl⟩ := compile_comparison_iff.mp compiled
    obtain rfl := lhs.unique Registry.isStandard_standard compares'.lhs
    obtain rfl := rhs.unique Registry.isStandard_standard compares'.rhs
    obtain rfl := compares.through.unique compares'.through
    rw [(Expr.folded_alike _).eval env] at evaluated
    exact Value.boolean.inj (answers c _ evaluated)
  · exact ⟨.eq, fun c x answer => absurd ⟨c, x, answer⟩ answered⟩

/-- The comparisons are coherent.  Being different is not being equal, and a comparison is the same
as its converse of the operands exchanged, in whether it compiles and in its answers; and of two
texts, or two numbers, exactly one is below, equal to or above the other. -/
theorem comparisons_coherent (a b : Json ν) (through : Option (Json ν)) (site : Site ν)
    (ds : List Diagnostic) (inOrder : CollatesInOrder site.scope through) :
    Agreeing (fun x y => x = !y) (compared site ds through .ne a b)
        (compared site ds through .eq a b) ∧
      (∀ c, Agreeing (· = ·) (compared site ds through c a b)
        (compared site ds through c.converse b a)) ∧
      ∀ (env : Env ν) (l r : Expr ν) (v w : Value ν) (below equal above atMost : Bool),
        (usual ν).Yields a site.scope (some .value) l →
        (usual ν).Yields b site.scope (some .value) r →
        l.eval env = .ok v → r.eval env = .ok w → Ranked v w →
        Answers site ds through env a b .lt below →
        Answers site ds through env a b .eq equal →
        Answers site ds through env a b .gt above →
        Answers site ds through env a b .le atMost →
          [below, equal, above].count true = 1 ∧ atMost = (below || equal) := by
  refine ⟨compared_ne, compared_converse inOrder, ?_⟩
  intro env l r v w below equal above atMost lhs rhs isV isW ranked isBelow isEqual isAbove isAtMost
  obtain ⟨o, answers⟩ := exists_order_of_answers lhs rhs isV isW ranked
  rw [answers .lt below isBelow, answers .eq equal isEqual, answers .gt above isAbove,
    answers .le atMost isAtMost]
  exact Comparison.holds_exactly_one o

end Coherence

end Compiler

/-! ## Engines -/

/-- The order of texts by their keys is a total preorder. -/
theorem Tailoring.compareText_transCmp (t : Tailoring) (s : Sensitivity) :
    Std.TransCmp (t.compareText s) where
  eq_swap {a b} := by
    unfold compareText
    exact Std.OrientedCmp.eq_swap
  isLE_trans {a b c} := by
    unfold compareText
    exact Std.TransCmp.isLE_trans

theorem Engine.forLocale_transCmp (locale : Option String) (s : Sensitivity) :
    Std.TransCmp (Engine.forLocale locale s).compare :=
  Tailoring.compareText_transCmp _ s

def Env.twoNames (p q : String) : Env Float :=
  ⟨.blank, some ⟨none, none, [("p", .str p), ("q", .str q)]⟩⟩

namespace Compiler

def nameOf (property : String) : Json Float := .arr [.str "get", .str property]

def plainCollator : Json Float := .arr [.str "collator", .obj []]

theorem plainCollator_inOrder : CollatesInOrder (ν := Float) .empty (some plainCollator) := by
  intro j mem e yields env k evaluated
  cases mem
  have folded : (usual Float).Yields plainCollator .empty (some .collator)
      (.literal (.collator (.make false false none)) .collator) := ⟨[], [], [], rfl⟩
  obtain rfl := yields.unique Registry.isStandard_standard folded
  cases Except.ok.inj evaluated
  have := Engine.forLocale_transCmp none (.ofFlags false false)
  exact inferInstanceAs (Std.OrientedCmp (Engine.forLocale none (.ofFlags false false)).compare)

def comparedNames (c : Comparison) (p q : String) : Option (Expr Float) :=
  compared (.root none) [] (some plainCollator) c (nameOf p) (nameOf q)

def NamesAnswer (c : Comparison) (x : Bool) : Prop :=
  Answers (.root none) [] (some plainCollator) (.twoNames "a" "b") (nameOf "p") (nameOf "q") c x

theorem comparisons_coherent_of_names :
    (∃ e e', comparedNames .lt "p" "q" = some e ∧ comparedNames .gt "q" "p" = some e' ∧
      ∀ env, Agree (· = ·) (e.eval env) (e'.eval env)) ∧
    ∃ below equal above atMost, NamesAnswer .lt below ∧ NamesAnswer .eq equal ∧
      NamesAnswer .gt above ∧ NamesAnswer .le atMost ∧
      [below, equal, above].count true = 1 ∧ atMost = (below || equal) := by
  obtain ⟨-, converse, ranks⟩ := comparisons_coherent (nameOf "p") (nameOf "q")
    (some plainCollator) (.root none) [] plainCollator_inOrder
  constructor
  · obtain ⟨e, compiled⟩ : ∃ e, comparedNames .lt "p" "q" = some e := ⟨_, rfl⟩
    have agreeing : Agreeing (· = ·) (comparedNames .lt "p" "q") (comparedNames .gt "q" "p") :=
      converse .lt
    obtain ⟨e', turned, agree⟩ := agreeing.exists_of_some compiled
    exact ⟨e, e', compiled, turned, agree⟩
  · have lhs : (usual Float).Yields (nameOf "p") .empty (some .value)
        (.get (.literal (.string "p") .string) none) := ⟨[], [], [], rfl⟩
    have rhs : (usual Float).Yields (nameOf "q") .empty (some .value)
        (.get (.literal (.string "q") .string) none) := ⟨[], [], [], rfl⟩
    have below : NamesAnswer .lt true := ⟨_, rfl, rfl⟩
    have equal : NamesAnswer .eq false := ⟨_, rfl, rfl⟩
    have above : NamesAnswer .gt false := ⟨_, rfl, rfl⟩
    have atMost : NamesAnswer .le true := ⟨_, rfl, rfl⟩
    obtain ⟨one, least⟩ := ranks (.twoNames "a" "b") _ _ _ _ _ _ _ _ lhs rhs rfl rfl
      (.texts "a" "b") below equal above atMost
    exact ⟨true, false, false, true, below, equal, above, atMost, one, least⟩

end Compiler

end MapStyle
