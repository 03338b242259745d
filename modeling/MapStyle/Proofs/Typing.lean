import MapStyle.Expr.Eval
import MapStyle.Proofs.Members
import MapStyle.Proofs.Subtyping

/-!
# Values of their types

An expression is well typed if the values that it may yield conform to its type, as far as this can
be told node by node.  The one exception is the kind of geometry: its type is `string`, and without
a geometry it is null.
-/

set_option autoImplicit false

namespace MapStyle

variable {ν : Type}

namespace Value

variable [Scalar ν]

/-- A value stands for a type, and is plain data of a document if it is an object. -/
structure Conforms (t : Ty) (v : Value ν) : Prop where
  accepts : t.accepts v.ty = true
  plain : ∀ ms, v = .object ms → ∃ members, ms = ofMembers members

theorem Conforms.weaken {t u : Ty} {v : Value ν} (upper : t.accepts u = true)
    (conforms : Conforms u v) : Conforms t v :=
  ⟨conforms_of_accepts upper conforms.accepts, conforms.plain⟩

theorem Conforms.of_ty {t : Ty} {v : Value ν} (type : v.ty = t) (notObject : t ≠ .object) :
    Conforms t v := by
  refine ⟨type ▸ t.accepts_self, fun ms eq => ?_⟩
  subst eq
  exact absurd type.symm notObject

/-! ## Plain data -/

theorem value_accepts_ofJson (j : Json ν) : Ty.value.accepts (ofJson j).ty = true := by
  cases j <;> rfl

theorem conforms_ofJson {t : Ty} (j : Json ν) (accepts : t.accepts (ofJson j).ty = true) :
    Conforms t (ofJson j) := by
  refine ⟨accepts, fun ms eq => ?_⟩
  cases j with
  | obj members => exact ⟨members, (Value.object.inj eq).symm⟩
  | _ => simp [ofJson] at eq

theorem conforms_elim_ofJson (j : Option (Json ν)) : Conforms .value (j.elim .null ofJson) := by
  cases j with
  | none => exact conforms_ofJson .null rfl
  | some j => exact conforms_ofJson j (value_accepts_ofJson j)

theorem ofMembers_eq_map (ms : List (String × Json ν)) :
    ofMembers ms = ms.map fun m => (m.1, ofJson m.2) := by
  induction ms with
  | nil => rfl
  | cons m ms ih => simp [ofMembers, ih]

theorem member_conforms (key : String) (v : Value ν)
    (plain : ∀ ms, v = .object ms → ∃ members, ms = ofMembers members) :
    Conforms .value (v.member key) := by
  cases v with
  | object ms =>
    obtain ⟨members, rfl⟩ := plain ms rfl
    have found : (ofMembers members).lookup key = (members.lookup key).map ofJson := by
      rw [ofMembers_eq_map, lookup_map_value]
    rw [member, found]
    cases members.lookup key with
    | none => exact conforms_ofJson .null rfl
    | some j => exact conforms_ofJson j (value_accepts_ofJson j)
  | _ => exact conforms_ofJson .null rfl

/-! ## Values that operators make -/

theorem ty_of_coerce? {t : Ty} {v w : Value ν} (converted : v.coerce? t = some w) : w.ty = t := by
  have mapped : ∀ {α : Type} {f : α → Value ν} {a : Option α}, a.map f = some w →
      (∀ x, (f x).ty = t) → w.ty = t := by
    intro α f a eq made
    obtain ⟨x, _, rfl⟩ := Option.map_eq_some_iff.mp eq
    exact made x
  cases t with
  | color | padding | numberArray | colorArray | formatted | resolvedImage =>
    simp only [coerce?] at converted
    split at converted
    all_goals first
      | exact mapped converted fun _ => rfl
      | exact Option.some.inj converted ▸ rfl
      | cases converted
  | _ => simp [coerce?] at converted

theorem coerce_conforms {t : Ty} {v w : Value ν} (done : v.coerce t = .ok w) : Conforms t w := by
  unfold coerce at done
  cases converted : v.coerce? t with
  | none => simp [converted] at done
  | some made =>
    simp only [converted, Except.ok.injEq] at done
    subst done
    refine .of_ty (ty_of_coerce? converted) ?_
    rintro rfl
    simp [coerce?] at converted

theorem ty_of_indexOf {needle haystack v : Value ν} {start : ν}
    (done : needle.indexOf haystack start = .ok v) : v.ty = .number := by
  unfold indexOf at done
  split at done <;> cases done <;> rfl

omit [Scalar ν] in
theorem ty_of_resolvedLocale {c v : Value ν} (done : c.resolvedLocale = .ok v) :
    v.ty = .string := by
  unfold resolvedLocale at done
  split at done <;> cases done
  rfl

theorem ty_of_conclude {c : Comparison} {a b v : Value ν} {through : Option (Outcome ν)}
    (done : c.conclude a b through = .ok v) : v.ty = .boolean := by
  unfold Comparison.conclude at done
  split at done
  · cases done
  · unfold Comparison.applyCollator at done
    split at done <;> cases done
    rfl
  · cases done
    rfl

theorem itemTypes_lerpItems? {x : ν} {xs ys items : List (Value ν)}
    (same : xs.length = ys.length) (blended : lerpItems? x xs ys = some items) :
    itemTypes items = itemTypes xs ∧ items.length = xs.length := by
  induction xs generalizing ys items with
  | nil =>
    have none : items = [] := by simpa [lerpItems?] using blended.symm
    simp [none]
  | cons a xs ih =>
    cases ys with
    | nil => simp at same
    | cons b ys =>
      unfold lerpItems? at blended
      split at blended
      · rename_i a xs b ys eqA eqB
        obtain ⟨rfl, rfl⟩ := List.cons.inj eqA
        obtain ⟨rfl, rfl⟩ := List.cons.inj eqB
        obtain ⟨more, rest, rfl⟩ := Option.map_eq_some_iff.mp blended
        obtain ⟨types, length⟩ := ih (by simpa using same) rest
        simp [itemTypes, types, length, ty]
      · cases blended
      · rename_i not
        exact absurd rfl (not a xs b ys rfl)

theorem blend_ty (space : ColorSpace) (a b : Value ν) (x : ν) : (a.blend space b x).ty = a.ty := by
  unfold blend
  split
  all_goals try rfl
  · split <;> rfl
  · split
    · rename_i xs ys same
      split
      · rename_i items blended
        obtain ⟨types, length⟩ := itemTypes_lerpItems? same blended
        simp [ty, types, length]
      · rfl
    · rfl

theorem blend_conforms {t : Ty} {a : Value ν} (space : ColorSpace) (b : Value ν) (x : ν)
    (conforms : Conforms t a) : Conforms t (a.blend space b x) := by
  refine ⟨by rw [blend_ty]; exact conforms.accepts, fun ms eq => conforms.plain ms ?_⟩
  have object : a.ty = .object := by
    rw [← blend_ty space a b x, eq, ty]
  cases a with
  | object ms => exact eq
  | _ => simp [ty] at object

end Value

def Selection.InRange [Scalar ν] (n : Nat) : Selection ν → Prop
  | .only i => i < n
  | .between i _ _ => i + 1 < n

theorem selectStop_inRange [Scalar ν] (labels : List ν) (x : ν) (nonempty : labels ≠ []) :
    (selectStop labels x).InRange labels.length := by
  have positive : 0 < labels.length := List.length_pos_iff.mpr nonempty
  unfold selectStop
  split
  · split
    · exact positive
    · split
      · exact Nat.sub_lt positive Nat.one_pos
      · simp only
        split
        · rename_i lower upper _ there
          exact (List.getElem?_eq_some_iff.mp there).1
        · exact positive
  · exact positive

namespace Expr

/-- Every node of an expression yields values of its type, if those below it do. -/
inductive WellTyped [Scalar ν] : Expr ν → Prop
  | literal {v : Value ν} {t : Ty} : Value.Conforms t v → WellTyped (.literal v t)
  | var (name : String) {bound : Expr ν} : WellTyped bound → WellTyped (.var name bound)
  | letIn {bindings : List (String × Expr ν)} {body : Expr ν} :
      (∀ b ∈ bindings, WellTyped b.2) → WellTyped body → WellTyped (.letIn bindings body)
  | indexOf {needle haystack : Expr ν} {start : Option (Expr ν)} : WellTyped needle →
      WellTyped haystack → (∀ s ∈ start, WellTyped s) → WellTyped (.indexOf needle haystack start)
  | get {key : Expr ν} {object : Option (Expr ν)} : WellTyped key →
      (∀ o ∈ object, WellTyped o) → WellTyped (.get key object)
  | zoom : WellTyped .zoom
  | access (a : Accessor) : WellTyped (.access a)
  | collator {case diacritic : Expr ν} {locale : Option (Expr ν)} : WellTyped case →
      WellTyped diacritic → (∀ l ∈ locale, WellTyped l) →
      WellTyped (.collator case diacritic locale)
  | resolvedLocale {c : Expr ν} : WellTyped c → WellTyped (.resolvedLocale c)
  | compare (c : Comparison) {lhs rhs : Expr ν} {through : Option (Expr ν)} : WellTyped lhs →
      WellTyped rhs → (∀ k ∈ through, WellTyped k) → WellTyped (.compare c lhs rhs through)
  | assertion (t : Ty) {args : List (Expr ν)} : (∀ a ∈ args, WellTyped a) →
      WellTyped (.assertion t args)
  | coercion (t : Ty) {arg : Expr ν} : WellTyped arg → WellTyped (.coercion t arg)
  | interpolate {t : Ty} (curve : Curve ν) (space : ColorSpace) {input : Expr ν}
      {stops : List (ν × Expr ν)} : t.isInterpolatable = true → WellTyped input → stops ≠ [] →
      (∀ s ∈ stops, WellTyped s.2) → (∀ s ∈ stops, t.accepts s.2.ty = true) →
      WellTyped (.interpolate t curve space input stops)

/-- The kind of geometry where there is none: null, although its type is `string`. -/
def Unlocated (env : Env ν) (t : Ty) (v : Value ν) : Prop :=
  t = .string ∧ v = .null ∧ env.feature.bind (·.geometry) = none

variable [Platform ν] {env : Env ν}

theorem read_conforms (a : Accessor) (env : Env ν) :
    (a.read env).Conforms a.ty ∨ Unlocated env a.ty (a.read env) := by
  cases a with
  | id => exact Or.inl (Value.conforms_elim_ofJson _)
  | geometryType =>
    cases located : env.feature.bind (·.geometry) with
    | none => exact Or.inr ⟨rfl, by simp [Accessor.read, located], located⟩
    | some g =>
      have string : (Accessor.geometryType.read env).ty = .string := by
        simp [Accessor.read, located, Value.ty]
      exact Or.inl (.of_ty string (by decide))
  | heatmapDensity => exact Or.inl (.of_ty rfl (by decide))

theorem evalAssertion_eq_ok {t last : Ty} {args : List (Expr ν)} {v : Value ν}
    (done : evalAssertion env t last args = .ok v) :
    t.accepts v.ty = true ∧ ∃ e ∈ args, e.eval env = .ok v := by
  induction args generalizing last with
  | nil => cases done
  | cons e es ih =>
    rw [evalAssertion] at done
    cases first : e.eval env with
    | error err => simp [first] at done
    | ok w =>
      by_cases accepted : t.accepts w.ty = true
      · simp only [first, accepted, if_true, Except.ok.injEq] at done
        subst done
        exact ⟨accepted, e, by simp, first⟩
      · simp only [first, accepted] at done
        obtain ⟨type, e', mem, later⟩ := ih done
        exact ⟨type, e', List.mem_cons_of_mem _ mem, later⟩

theorem evalOutput_eq_eval {stops : List (ν × Expr ν)} {i : Nat} (inRange : i < stops.length) :
    ∃ s ∈ stops, evalOutput env stops i = s.2.eval env := by
  induction stops generalizing i with
  | nil => simp at inRange
  | cons s stops ih =>
    cases i with
    | zero => exact ⟨s, by simp, rfl⟩
    | succ i =>
      obtain ⟨s', mem, same⟩ := ih (by simpa using inRange)
      exact ⟨s', List.mem_cons_of_mem _ mem, same⟩

theorem not_accepts_string {t : Ty} (blends : t.isInterpolatable = true) :
    ¬ t.accepts .string = true := by
  cases t <;> simp_all [Ty.isInterpolatable, Ty.accepts]

theorem interpolate_conforms {t : Ty} {curve : Curve ν} {space : ColorSpace} {input : Expr ν}
    {stops : List (ν × Expr ν)} {v : Value ν} (nonempty : stops ≠ [])
    (output : ∀ {i : Nat} {w : Value ν}, i < stops.length → evalOutput env stops i = .ok w →
      w.Conforms t)
    (done : (Expr.interpolate t curve space input stops).eval env = .ok v) : v.Conforms t := by
  rw [eval] at done
  split at done
  · exact output (List.length_pos_iff.mpr nonempty) done
  split at done
  · cases done
  · rename_i x _
    have inRange := selectStop_inRange (stops.map (·.1)) (x.asNumber?.getD Scalar.nan)
      (by simpa using nonempty)
    simp only at done
    split at done
    · rename_i i selected
      rw [selected] at inRange
      exact output (by simpa [Selection.InRange] using inRange) done
    · rename_i i lower upper selected
      rw [selected, List.length_map] at inRange
      cases first : evalOutput env stops i with
      | error err => simp [first] at done
      | ok a =>
        cases second : evalOutput env stops (i + 1) with
        | error err => simp [first, second] at done
        | ok b =>
          simp only [first, second, Except.ok.injEq] at done
          subst done
          exact Value.blend_conforms space b _ (output (Nat.lt_of_succ_lt inRange) first)

/-- A well-typed expression yields values of its type, apart from the kind of geometry where there
is none. -/
theorem WellTyped.eval_conforms {e : Expr ν} (typed : e.WellTyped) {v : Value ν}
    (done : e.eval env = .ok v) : v.Conforms e.ty ∨ Unlocated env e.ty v := by
  induction typed generalizing v with
  | literal conforms =>
    obtain rfl := Except.ok.inj done
    exact Or.inl conforms
  | var name _ ih =>
    rw [eval] at done
    exact ih done
  | letIn _ _ _ ih =>
    rw [eval] at done
    exact ih done
  | indexOf _ _ _ _ _ _ =>
    rw [eval] at done
    split at done
    · cases done
    split at done
    · cases done
    split at done
    · split at done
      · cases done
      · exact Or.inl (.of_ty (Value.ty_of_indexOf done) (by simp [ty]))
    · cases done
  | @get key object _ _ _ ih =>
    left
    cases object with
    | none =>
      rw [eval] at done
      split at done <;> cases done
      exact Value.conforms_elim_ofJson _
    | some object =>
      rw [eval] at done
      split at done
      · cases done
      split at done
      · cases done
      · rename_i o evaluated
        obtain rfl := Except.ok.inj done
        apply Value.member_conforms
        rcases ih object rfl evaluated with conforms | ⟨_, rfl, _⟩
        · exact conforms.plain
        · simp
  | zoom =>
    rw [eval] at done
    split at done <;> cases done
    exact Or.inl (.of_ty rfl (by simp [ty]))
  | access a =>
    rw [eval] at done
    obtain rfl := Except.ok.inj done
    exact read_conforms a env
  | collator _ _ _ _ _ _ =>
    rw [eval] at done
    split at done
    · cases done
    split at done
    · cases done
    split at done <;> cases done
    exact Or.inl (.of_ty rfl (by simp [ty]))
  | resolvedLocale _ _ =>
    rw [eval] at done
    split at done
    · cases done
    · exact Or.inl (.of_ty (Value.ty_of_resolvedLocale done) (by simp [ty]))
  | compare c _ _ _ _ _ _ =>
    rw [eval] at done
    split at done
    · cases done
    split at done
    · cases done
    split at done
    · cases done
    · exact Or.inl (.of_ty (Value.ty_of_conclude done) (by simp [ty]))
  | assertion t _ ih =>
    rw [eval] at done
    obtain ⟨accepted, e, mem, evaluated⟩ := evalAssertion_eq_ok done
    left
    refine ⟨accepted, ?_⟩
    rcases ih e mem evaluated with conforms | ⟨_, rfl, _⟩
    · exact conforms.plain
    · simp
  | coercion t _ _ =>
    rw [eval] at done
    split at done
    · cases done
    · exact Or.inl (Value.coerce_conforms done)
  | @interpolate t curve space input stops blends _ nonempty _ accepted _ ih =>
    have output : ∀ {i : Nat} {w : Value ν}, i < stops.length → evalOutput env stops i = .ok w →
        w.Conforms t := by
      intro i w inRange evaluated
      obtain ⟨s, mem, same⟩ : ∃ s ∈ stops, evalOutput env stops i = s.2.eval env :=
        evalOutput_eq_eval inRange
      rcases ih s mem (same ▸ evaluated) with conforms | ⟨string, _, _⟩
      · exact conforms.weaken (accepted s mem)
      · -- the kind of geometry is text, and text does not blend
        exact absurd (string ▸ accepted s mem) (not_accepts_string blends)
    exact Or.inl (interpolate_conforms nonempty output done)

end Expr

end MapStyle
