import MapStyle.Proofs.Reads

/-!
# Interchangeable expressions

Expressions are alike if nothing tells them apart but their form: they have one type, read the same
and have one outcome in every context.  Alike expressions may stand for one another below any node.
-/

set_option autoImplicit false

namespace MapStyle

variable {ν : Type} [Platform ν]

namespace Expr

/-- Two expressions have one type, read the same and have one outcome in every context. -/
structure Alike (e f : Expr ν) : Prop where
  ty : e.ty = f.ty
  reads : e.subtreeReads = f.subtreeReads
  eval : ∀ env, e.eval env = f.eval env

section Lists

variable {α : Type} {f g : α → Expr ν}

theorem allRead_map_eq {as : List α} (alike : ∀ a ∈ as, (f a).Alike (g a)) :
    allRead (as.map f) = allRead (as.map g) := by
  induction as with
  | nil => rfl
  | cons a as ih =>
    have rest := ih fun b mem => alike b (List.mem_cons_of_mem a mem)
    simp only [List.map_cons, allRead, (alike a (by simp)).reads, rest]

theorem optionReads_map_eq {a : Option α} (alike : ∀ b ∈ a, (f b).Alike (g b)) :
    optionReads (a.map f) = optionReads (a.map g) := by
  cases a with
  | none => rfl
  | some a => exact (alike a rfl).reads

theorem evalOption_map_eq {a : Option α} (alike : ∀ b ∈ a, (f b).Alike (g b)) (env : Env ν) :
    evalOption env (a.map f) = evalOption env (a.map g) := by
  cases a with
  | none => rfl
  | some a => exact (alike a rfl).eval env

theorem evalThrough_map_eq {a : Option α} (alike : ∀ b ∈ a, (f b).Alike (g b)) (env : Env ν) :
    evalThrough env (a.map f) = evalThrough env (a.map g) := by
  cases a with
  | none => rfl
  | some a => exact congrArg some ((alike a rfl).eval env)

theorem evalAssertion_map_eq {as : List α} (alike : ∀ a ∈ as, (f a).Alike (g a)) (env : Env ν)
    (t last : Ty) : evalAssertion env t last (as.map f) = evalAssertion env t last (as.map g) := by
  induction as generalizing last with
  | nil => rfl
  | cons a as ih =>
    have rest := fun last => ih (fun b mem => alike b (List.mem_cons_of_mem a mem)) last
    simp only [List.map_cons, evalAssertion, (alike a (by simp)).eval env, rest]

theorem evalOutput_map_eq {stops : List (ν × α)} (alike : ∀ s ∈ stops, (f s.2).Alike (g s.2))
    (env : Env ν) (i : Nat) : evalOutput env (stops.map fun s => (s.1, f s.2)) i =
      evalOutput env (stops.map fun s => (s.1, g s.2)) i := by
  induction stops generalizing i with
  | nil => rfl
  | cons s stops ih =>
    cases i with
    | zero => exact (alike s (by simp)).eval env
    | succ i => exact ih (fun s' mem => alike s' (List.mem_cons_of_mem s mem)) i

end Lists

namespace Alike

variable {α : Type} {f g : α → Expr ν}

theorem refl (e : Expr ν) : e.Alike e := ⟨rfl, rfl, fun _ => rfl⟩

theorem trans {e e' e'' : Expr ν} (alike : e.Alike e') (more : e'.Alike e'') : e.Alike e'' :=
  ⟨alike.ty.trans more.ty, alike.reads.trans more.reads,
    fun env => (alike.eval env).trans (more.eval env)⟩

theorem var (name : String) {e e' : Expr ν} (alike : e.Alike e') :
    (Expr.var name e).Alike (.var name e') := by
  refine ⟨alike.ty, alike.reads, fun env => ?_⟩
  rw [Expr.eval, Expr.eval, alike.eval env]

theorem letIn {bindings : List (String × α)} {body body' : Expr ν}
    (bound : ∀ b ∈ bindings, (f b.2).Alike (g b.2)) (alike : body.Alike body') :
    (Expr.letIn (bindings.map fun b => (b.1, f b.2)) body).Alike
      (.letIn (bindings.map fun b => (b.1, g b.2)) body') := by
  refine ⟨alike.ty, ?_, fun env => ?_⟩
  · have same := allRead_map_eq bound
    simp only [subtreeReads, bindingsRead_eq, List.map_map, Function.comp_def, alike.reads, same]
  · rw [Expr.eval, Expr.eval, alike.eval env]

theorem indexOf {needle needle' haystack haystack' : Expr ν} {start : Option α}
    (needles : needle.Alike needle') (haystacks : haystack.Alike haystack')
    (starts : ∀ s ∈ start, (f s).Alike (g s)) :
    (Expr.indexOf needle haystack (start.map f)).Alike
      (.indexOf needle' haystack' (start.map g)) := by
  refine ⟨rfl, ?_, fun env => ?_⟩
  · simp only [subtreeReads, needles.reads, haystacks.reads, optionReads_map_eq starts]
  · simp only [Expr.eval, needles.eval env, haystacks.eval env, evalOption_map_eq starts env]

theorem get {key key' : Expr ν} {object : Option α} (keys : key.Alike key')
    (objects : ∀ o ∈ object, (f o).Alike (g o)) :
    (Expr.get key (object.map f)).Alike (.get key' (object.map g)) := by
  cases object with
  | none =>
    refine ⟨rfl, ?_, fun env => ?_⟩
    · simp only [Option.map_none, subtreeReads, keys.reads]
    · simp only [Option.map_none, Expr.eval, keys.eval env]
  | some object =>
    have same := objects object rfl
    refine ⟨rfl, ?_, fun env => ?_⟩
    · simp only [Option.map_some, subtreeReads, keys.reads, same.reads]
    · simp only [Option.map_some, Expr.eval, keys.eval env, same.eval env]

theorem collator {case case' diacritic diacritic' : Expr ν} {locale : Option α}
    (cases : case.Alike case') (diacritics : diacritic.Alike diacritic')
    (locales : ∀ l ∈ locale, (f l).Alike (g l)) :
    (Expr.collator case diacritic (locale.map f)).Alike
      (.collator case' diacritic' (locale.map g)) := by
  refine ⟨rfl, ?_, fun env => ?_⟩
  · simp only [subtreeReads, cases.reads, diacritics.reads, optionReads_map_eq locales]
  · simp only [Expr.eval, cases.eval env, diacritics.eval env, evalOption_map_eq locales env]

theorem resolvedLocale {c c' : Expr ν} (alike : c.Alike c') :
    (Expr.resolvedLocale c).Alike (.resolvedLocale c') := by
  refine ⟨rfl, alike.reads, fun env => ?_⟩
  rw [Expr.eval, Expr.eval, alike.eval env]

theorem compare (c : Comparison) {lhs lhs' rhs rhs' : Expr ν} {through : Option α}
    (lefts : lhs.Alike lhs') (rights : rhs.Alike rhs')
    (throughs : ∀ k ∈ through, (f k).Alike (g k)) :
    (Expr.compare c lhs rhs (through.map f)).Alike (.compare c lhs' rhs' (through.map g)) := by
  refine ⟨rfl, ?_, fun env => ?_⟩
  · simp only [subtreeReads, lefts.reads, rights.reads, optionReads_map_eq throughs]
  · have untypedLeft : lhs.isUntyped = lhs'.isUntyped := by rw [isUntyped, isUntyped, lefts.ty]
    have untypedRight : rhs.isUntyped = rhs'.isUntyped := by rw [isUntyped, isUntyped, rights.ty]
    rw [Expr.eval, Expr.eval, untypedLeft, untypedRight, lefts.eval env, rights.eval env,
      evalThrough_map_eq throughs env]

theorem assertion (t : Ty) {args : List α} (alike : ∀ a ∈ args, (f a).Alike (g a)) :
    (Expr.assertion t (args.map f)).Alike (.assertion t (args.map g)) := by
  refine ⟨rfl, allRead_map_eq alike, fun env => ?_⟩
  rw [Expr.eval, Expr.eval, evalAssertion_map_eq alike env]

theorem coercion (t : Ty) {e e' : Expr ν} (alike : e.Alike e') :
    (Expr.coercion t e).Alike (.coercion t e') := by
  refine ⟨rfl, alike.reads, fun env => ?_⟩
  rw [Expr.eval, Expr.eval, alike.eval env]

theorem interpolate (t : Ty) (curve : Curve ν) (space : ColorSpace) {input input' : Expr ν}
    {stops : List (ν × α)} (inputs : input.Alike input')
    (outputs : ∀ s ∈ stops, (f s.2).Alike (g s.2)) :
    (Expr.interpolate t curve space input (stops.map fun s => (s.1, f s.2))).Alike
      (.interpolate t curve space input' (stops.map fun s => (s.1, g s.2))) := by
  refine ⟨rfl, ?_, fun env => ?_⟩
  · have same := allRead_map_eq outputs
    simp only [subtreeReads, stopsRead_eq, List.map_map, Function.comp_def, inputs.reads, same]
  · have same := funext (evalOutput_map_eq outputs env)
    simp only [Expr.eval, List.length_map, List.map_map, Function.comp_def, inputs.eval env, same]

end Alike

end Expr

end MapStyle
