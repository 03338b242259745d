import MapStyle.Number.Float
import MapStyle.Proofs.Compile.Reporting

/-!
# Folding keeps the meaning

A compiler that folds and one that leaves every expression as it is run side by side.  They agree
on all that a parse function asks of its operands, so they come to finish alike expressions, and
folding only stops at those of them that have to be evaluated and have no value.

What is finished on the way does not show in the result.  So the plain compiler stands there many
times: once for everyone who looks out for some of the finished expressions and leaves a remark on
each of them.
-/

set_option autoImplicit false

namespace MapStyle

variable {ν : Type} [Platform ν]

/-! ## Watching what is finished -/

def sighting : Diagnostic := ⟨[], .remark "seen"⟩

def sightings (lookedFor : Expr ν → Bool) (finished : List (Expr ν)) : List Diagnostic :=
  (finished.filter lookedFor).map fun _ => sighting

namespace Compiler

/-- The compiler over a registry that leaves every expression as it is and remarks on those that are
looked for. -/
def watching (r : Registry ν) (lookedFor : Expr ν → Bool) : Compiler ν :=
  ⟨r, fun _ e ds => some (some e, ds ++ sightings lookedFor [e])⟩

/-- Compiling a document without folding comes to finish an expression: everyone who looks for it
sees it. -/
def Finishes (r : Registry ν) (j : Json ν) (expected : Option Ty) (e : Expr ν) : Prop :=
  ∀ lookedFor : Expr ν → Bool, lookedFor e = true →
    ∃ result after, ((watching r lookedFor).compile j (.root expected)).run [] =
      some (result, after) ∧ after ≠ []

end Compiler

omit [Platform ν] in
theorem sightings_append (lookedFor : Expr ν → Bool) (xs ys : List (Expr ν)) :
    sightings lookedFor (xs ++ ys) = sightings lookedFor xs ++ sightings lookedFor ys := by
  simp [sightings]

omit [Platform ν] in
theorem sightings_eq_nil {lookedFor : Expr ν → Bool} {es : List (Expr ν)} :
    sightings lookedFor es = [] ↔ ∀ e ∈ es, lookedFor e = false := by
  simp [sightings]

/-! ## Both compilers side by side -/

/-- The compiler that folds, at `none`, or someone who looks out for some of the expressions. -/
abbrev Onlooker (ν : Type) : Type := Option (Expr ν → Bool)

namespace Compiling

variable {α β : Type}

/-- A compilation that folds beside the same one without folding, for everyone who looks for
something.  Either none of them has a result, whatever was found so far; or those without
folding have one and come to finish some expressions, and the folding one has one if all of these
pass. -/
def FoldsBeside (R : (Onlooker ν → α) → Prop) (m : Onlooker ν → Compiling α) : Prop :=
  (∀ i ds, (m i).result? ds = none) ∨
    ∃ (a : Onlooker ν → α) (finished : List (Expr ν)), R a ∧
      (∀ lookedFor ds, m (some lookedFor) ds =
        some (some (a (some lookedFor)), ds ++ sightings lookedFor finished)) ∧
      ∀ ds, (m none).result? ds = if finished.all Expr.passes then some (a none) else none

namespace FoldsBeside

variable {R : (Onlooker ν → α) → Prop} {S : (Onlooker ν → β) → Prop}
  {m : Onlooker ν → Compiling α}

theorem yields {a : Onlooker ν → α} (holds : R a) :
    FoldsBeside R fun i => pure (a i) :=
  Or.inr ⟨a, [], holds, fun _ ds => by simp [pure_run, sightings], fun _ => rfl⟩

theorem andThen {next : Onlooker ν → α → Compiling β} (first : FoldsBeside R m)
    (later : ∀ a, R a → FoldsBeside S fun i => next i (a i)) :
    FoldsBeside S fun i => m i >>= next i := by
  rcases first with stopped | ⟨a, finished, related, watched, folding⟩
  · exact Or.inl fun i ds => result?_bind_of_none (next i) (stopped i ds)
  · have goesOn (pass : finished.all Expr.passes = true) (ds : List Diagnostic) :
        ∃ ds', (m none >>= next none).result? ds = (next none (a none)).result? ds' := by
      have done : (m none).result? ds = some (a none) := by rw [folding, if_pos pass]
      obtain ⟨ds', done⟩ := result?_eq_some.mp done
      exact ⟨ds', result?_bind_of_some (next none) done⟩
    have stays (pass : ¬ finished.all Expr.passes = true) (ds : List Diagnostic) :
        (m none >>= next none).result? ds = none :=
      result?_bind_of_none (next none) (by rw [folding, if_neg pass])
    rcases later a related with stopped | ⟨b, more, relatedB, watchedB, foldingB⟩
    · refine Or.inl fun i ds => ?_
      cases i with
      | some lookedFor =>
        exact (result?_bind_of_some _ (watched lookedFor ds)).trans (stopped (some lookedFor) _)
      | none =>
        by_cases pass : finished.all Expr.passes = true
        · obtain ⟨ds', same⟩ := goesOn pass ds
          exact same.trans (stopped none ds')
        · exact stays pass ds
    · refine Or.inr ⟨b, finished ++ more, relatedB, fun lookedFor ds => ?_, fun ds => ?_⟩
      · have rest : next (some lookedFor) (a (some lookedFor))
            (ds ++ sightings lookedFor finished) =
              some (some (b (some lookedFor)), ds ++ sightings lookedFor (finished ++ more)) := by
          rw [sightings_append, ← List.append_assoc]
          exact watchedB lookedFor _
        exact (bind_of_some _ (watched lookedFor ds)).trans rest
      · by_cases pass : finished.all Expr.passes = true
        · obtain ⟨ds', same⟩ := goesOn pass ds
          rw [List.all_append, pass, Bool.true_and]
          exact same.trans (foldingB ds')
        · rw [List.all_append, eq_false_of_ne_true pass, Bool.false_and]
          exact stays pass ds

theorem both {n : Onlooker ν → Compiling β} (first : FoldsBeside R m)
    (second : FoldsBeside S n) :
    FoldsBeside (fun ab => (R fun i => (ab i).1) ∧ S fun i => (ab i).2)
      fun i => (m i).both (n i) := by
  rcases first with stopped | ⟨a, finished, related, watched, folding⟩
  · exact Or.inl fun i ds => result?_both_of_none (n i) (stopped i ds)
  · have goesOn (pass : finished.all Expr.passes = true) (ds : List Diagnostic) :
        ∃ ds', ((m none).both (n none)).result? ds =
          ((n none).result? ds').map fun b => (a none, b) := by
      have done : (m none).result? ds = some (a none) := by rw [folding, if_pos pass]
      obtain ⟨ds', done⟩ := result?_eq_some.mp done
      exact ⟨ds', result?_both_of_some (n none) done⟩
    have stays (pass : ¬ finished.all Expr.passes = true) (ds : List Diagnostic) :
        ((m none).both (n none)).result? ds = none :=
      result?_both_of_none (n none) (by rw [folding, if_neg pass])
    rcases second with stopped | ⟨b, more, relatedB, watchedB, foldingB⟩
    · refine Or.inl fun i ds => ?_
      cases i with
      | some lookedFor =>
        rw [result?_both_of_some _ (watched lookedFor ds), stopped, Option.map_none]
      | none =>
        by_cases pass : finished.all Expr.passes = true
        · obtain ⟨ds', same⟩ := goesOn pass ds
          rw [same, stopped, Option.map_none]
        · exact stays pass ds
    · refine Or.inr ⟨fun i => (a i, b i), finished ++ more, ⟨related, relatedB⟩,
        fun lookedFor ds => ?_, fun ds => ?_⟩
      · simp [Compiling.both, watched, watchedB, sightings_append]
      · by_cases pass : finished.all Expr.passes = true
        · obtain ⟨ds', same⟩ := goesOn pass ds
          rw [same, foldingB, List.all_append, pass, Bool.true_and]
          cases more.all Expr.passes <;> rfl
        · rw [stays pass ds, List.all_append]
          simp [pass]

end FoldsBeside

end Compiling

def Judgement.folding (ν : Type) [Platform ν] : Judgement (Onlooker ν) where
  Holds _ R m := Compiling.FoldsBeside R m
  yields related := Compiling.FoldsBeside.yields related
  andThen first later := first.andThen later
  both first second := first.both second
  Lenient := True
  endless _ := Or.inl fun _ _ => rfl
  fails _ _ := Or.inl fun _ _ => rfl
  above _ holds := holds

def unwatched : Onlooker ν := some fun _ => false

/-- Everyone who watches gets one expression of a type, and folding makes one like it. -/
structure FoldsLike (t : Ty) (e : Onlooker ν → Expr ν) : Prop where
  alike : (e none).Alike (e unwatched)
  watched : ∀ lookedFor, e (some lookedFor) = e unwatched
  ty : (e unwatched).ty = t

namespace FoldsLike

variable {e : Onlooker ν → Expr ν}

theorem alike_of_exists (like : ∃ t, FoldsLike t e) : (e none).Alike (e unwatched) := by
  obtain ⟨_, h⟩ := like
  exact h.alike

theorem watched_of_exists (like : ∃ t, FoldsLike t e) (lookedFor : Expr ν → Bool) :
    e (some lookedFor) = e unwatched := by
  obtain ⟨_, h⟩ := like
  exact h.watched lookedFor

end FoldsLike

open FoldsLike in
def Correspondence.folding (ν : Type) [Platform ν] : Correspondence (Onlooker ν) ν where
  Together := FoldsLike
  ty_eq like i := by
    cases i with
    | none => exact like.alike.ty.trans like.ty
    | some lookedFor => rw [like.watched]; exact like.ty
  literal j _ := ⟨.refl _, fun _ => rfl, rfl⟩
  var name bound := ⟨.var name bound.alike, fun l => by rw [bound.watched l], bound.ty⟩
  letIn bindings body := by
    refine ⟨.letIn (f := (· none)) (g := (· unwatched))
      (fun b mem => alike_of_exists (bindings b mem)) body.alike, fun l => ?_, body.ty⟩
    rw [body.watched l, List.map_congr_left fun b mem =>
      congrArg (Prod.mk b.1) (watched_of_exists (bindings b mem) l)]
  indexOf start needle haystack starts := by
    refine ⟨.indexOf needle.alike haystack.alike fun s mem => alike_of_exists (starts s mem),
      fun l => ?_, rfl⟩
    rw [needle.watched l, haystack.watched l,
      Option.map_congr fun s mem => watched_of_exists (starts s mem) l]
  get object key objects := by
    refine ⟨.get key.alike fun o mem => alike_of_exists (objects o mem), fun l => ?_, rfl⟩
    rw [key.watched l, Option.map_congr fun o mem => watched_of_exists (objects o mem) l]
  zoom := ⟨.refl _, fun _ => rfl, rfl⟩
  access a := ⟨.refl _, fun _ => rfl, rfl⟩
  collator locale case diacritic locales := by
    refine ⟨.collator case.alike diacritic.alike fun k mem => alike_of_exists (locales k mem),
      fun l => ?_, rfl⟩
    rw [case.watched l, diacritic.watched l,
      Option.map_congr fun k mem => watched_of_exists (locales k mem) l]
  resolvedLocale c := ⟨.resolvedLocale c.alike, fun l => by rw [c.watched l], rfl⟩
  compare c through lhs rhs throughs := by
    refine ⟨.compare c lhs.alike rhs.alike fun k mem => alike_of_exists (throughs k mem),
      fun l => ?_, rfl⟩
    rw [lhs.watched l, rhs.watched l,
      Option.map_congr fun k mem => watched_of_exists (throughs k mem) l]
  assertion t args like := by
    refine ⟨.assertion t fun a mem => alike_of_exists (like a mem), fun l => ?_, rfl⟩
    rw [List.map_congr_left fun a mem => watched_of_exists (like a mem) l]
  coercion t arg := ⟨.coercion t arg.alike, fun l => by rw [arg.watched l], rfl⟩
  interpolate curve space _ input _ _ outputs := by
    have like := fun s mem => (outputs s mem).imp fun _ h => h.1
    refine ⟨.interpolate (f := (· none)) (g := (· unwatched)) _ curve space input.alike
      (fun s mem => alike_of_exists (like s mem)), fun l => ?_, rfl⟩
    rw [input.watched l, List.map_congr_left fun s mem =>
      congrArg (Prod.mk s.1) (watched_of_exists (like s mem) l)]

def Compiler.beside (r : Registry ν) : Onlooker ν → Compiler ν
  | none => .ofRegistry r
  | some lookedFor => .watching r lookedFor

theorem beside_inStep {r : Registry ν} (standard : r.IsStandard) :
    InStep (Judgement.folding ν) (Correspondence.folding ν) r (Compiler.beside r) := by
  refine ⟨standard, fun i => by cases i <;> rfl, Or.inl trivial, ?_⟩
  intro t e path scope expected like
  refine Or.inr ⟨fun i => i.elim (e none).folded fun l => e (some l), [e unwatched], ?_,
    fun l ds => ?_, fun ds => ?_⟩
  · exact ⟨(e none).folded_alike.trans like.alike, like.watched, like.ty⟩
  · simp only [Compiler.beside, Compiler.watching, like.watched, Option.elim]
  · simp only [List.all_cons, List.all_nil, Bool.and_true, ← like.alike.passes]
    by_cases passes : (e none).passes = true
    · rw [if_pos passes]
      exact congrArg (fun m => Compiling.result? m ds) (foldConstant_of_passes _ passes)
    · rw [if_neg passes]
      obtain ⟨err, stopped⟩ := foldConstant_of_not_passes ⟨path, scope none, expected⟩ passes
      exact congrArg (fun m => Compiling.result? m ds) stopped

omit [Platform ν] in
theorem Compiler.watching_nothing (r : Registry ν) :
    watching r (fun _ => false) = withoutFolding r := by
  have finish : ∀ (e : Expr ν) (ds : List Diagnostic),
      some (some e, ds ++ sightings (fun _ => false) [e]) = (pure e : Compiling (Expr ν)) ds := by
    intro e ds
    simp [sightings, Compiling.pure_run]
  simp only [watching, withoutFolding, finish]

omit [Platform ν] in
theorem Compiler.finishes_iff_mem {r : Registry ν} {j : Json ν} {expected : Option Ty}
    {finished : List (Expr ν)} (seen : ∀ lookedFor, ∃ result,
      ((watching r lookedFor).compile j (.root expected)).run [] =
        some (result, sightings lookedFor finished))
    (e : Expr ν) : Finishes r j expected e ↔ e ∈ finished := by
  constructor
  · -- whoever looks for this expression alone sees nothing unless it is finished
    intro finishes
    classical
    by_cases mem : e ∈ finished
    · exact mem
    · obtain ⟨_, _, run, some⟩ := finishes (fun e' => decide (e' = e)) (by simp)
      obtain ⟨_, all⟩ := seen fun e' => decide (e' = e)
      cases all.symm.trans run
      refine absurd ?_ some
      rw [sightings_eq_nil]
      intro e' mem'
      simp only [decide_eq_false_iff_not]
      rintro rfl
      exact mem mem'
  · intro mem lookedFor looks
    obtain ⟨result, all⟩ := seen lookedFor
    refine ⟨result, _, all, fun nothing => ?_⟩
    rw [sightings_eq_nil] at nothing
    exact Bool.noConfusion (looks.symm.trans (nothing e mem))

omit [Platform ν] in
theorem Compiling.toExcept_eq_ok {m : Compiling (Expr ν)} {e : Expr ν} :
    m.toExcept = .ok e ↔ m.run [] = some (some e, []) := by
  rcases run : m.run [] with _ | ⟨_ | a, _ | ⟨d, ds⟩⟩ <;> simp [toExcept, run]

/-- Compiles a document on its own for an expected type and leaves every expression as it is. -/
def compilePlain (r : Registry ν) (j : Json ν) (expected : Option Ty) :
    Except (List Diagnostic) (Expr ν) :=
  ((Compiler.withoutFolding r).compile j (.root expected)).toExcept

/-- Compiling a document with and without folding: both fail, or the plain one has a result, and the
folding one has one like it exactly if every expression that is finished on the way passes. -/
theorem compile_beside {r : Registry ν} (standard : r.IsStandard) (j : Json ν)
    (expected : Option Ty) :
    (∀ e, compileExpr r j expected ≠ .ok e ∧ compilePlain r j expected ≠ .ok e) ∨
      ∃ (e e' : Expr ν) (finished : List (Expr ν)), e.Alike e' ∧
        compilePlain r j expected = .ok e' ∧
        (∀ x, Compiler.Finishes r j expected x ↔ x ∈ finished) ∧
        ∀ f, compileExpr r j expected = .ok f ↔ f = e ∧ ∀ x ∈ finished, x.passes = true := by
  have beside : Compiling.FoldsBeside ((Correspondence.folding ν).Fits expected)
      fun i => (Compiler.beside r i).compile j (.root expected) :=
    Compiler.compile_holds (beside_inStep standard) (fun _ => trivial) j .empty [] expected
  have plain : compilePlain r j expected =
      ((Compiler.beside r unwatched).compile j (.root expected)).toExcept := by
    rw [compilePlain, ← Compiler.watching_nothing, unwatched, Compiler.beside]
  have resulted {m : Compiling (Expr ν)} {e : Expr ν} (done : m.toExcept = .ok e) :
      m.result? [] = some e :=
    Compiling.result?_eq_some.mpr ⟨[], Compiling.toExcept_eq_ok.mp done⟩
  rcases beside with stopped | ⟨a, finished, ⟨t, like, _⟩, watched, folding⟩
  · refine Or.inl fun e => ⟨fun done => ?_, fun done => ?_⟩
    · exact Option.some_ne_none e ((resulted done).symm.trans (stopped none []))
    · exact Option.some_ne_none e
        ((resulted (plain.symm.trans done)).symm.trans (stopped unwatched []))
  · refine Or.inr ⟨a none, a unwatched, finished, like.alike, ?_, ?_, ?_⟩
    · rw [plain, Compiling.toExcept_eq_ok]
      have run := watched (fun _ => false) []
      rwa [sightings_eq_nil.mpr fun _ _ => rfl, List.append_nil] at run
    · apply Compiler.finishes_iff_mem
      intro lookedFor
      exact ⟨_, watched lookedFor []⟩
    · intro f
      have all : finished.all Expr.passes = true ↔ ∀ x ∈ finished, x.passes = true :=
        List.all_eq_true
      rw [← all]
      constructor
      · intro done
        have run := (resulted done).symm.trans (folding [])
        by_cases pass : finished.all Expr.passes = true
        · rw [if_pos pass] at run
          exact ⟨Option.some.inj run, pass⟩
        · rw [if_neg pass] at run
          exact absurd run (Option.some_ne_none f)
      · rintro ⟨rfl, pass⟩
        have run := folding []
        rw [if_pos pass, Compiling.result?_eq_some] at run
        obtain ⟨ds, ran⟩ := run
        rcases (Compiler.compile_reports standard j (.root expected)).toExcept with
          ⟨e, _, done, ran'⟩ | ⟨_, _, _, ran'⟩ | ⟨_, _, ran'⟩
        · cases ran'.symm.trans ran
          exact done
        · cases ran'.symm.trans ran
        · cases ran'.symm.trans ran

/-! ## Every result is finished -/

namespace Compiler

variable {c : Compiler ν} {site : Site ν} {ds ds' : List Diagnostic} {e : Expr ν}

/-- A compiler finishes an expression with a result. -/
def FinishesWith (c : Compiler ν) (e : Expr ν) : Prop :=
  ∃ site e' ds ds', c.finish site e' ds = some (some e, ds')

omit [Platform ν] in
theorem settle_finishesWith {e' : Expr ν} (done : c.settle site e' ds = some (some e, ds')) :
    c.FinishesWith e := by
  cases expecting : site.expected with
  | none =>
    simp only [settle, expecting] at done
    exact ⟨site, e', ds, ds', done⟩
  | some expected =>
    simp only [settle, expecting] at done
    obtain ⟨annotated, rest, _, finished⟩ := Compiling.bind_eq_some done
    exact ⟨site, annotated, rest, ds', finished⟩

omit [Platform ν] in
theorem apply_finishesWith {f : Form ν} (done : c.apply f site ds = some (some e, ds')) :
    c.FinishesWith e := by
  cases found : c.registry.get? f.name with
  | none =>
    simp only [apply, found] at done
    cases done
  | some parse =>
    simp only [apply, found] at done
    obtain ⟨parsed, rest, _, settled⟩ := Compiling.bind_eq_some done
    exact settle_finishesWith settled

omit [Platform ν] in
theorem form_finishesWith {operands : List (Operand ν)}
    (done : c.form operands site ds = some (some e, ds')) : c.FinishesWith e := by
  cases operands with
  | nil => cases done
  | cons head args =>
    cases operator : head.json with
    | str name =>
      simp only [form, operator] at done
      exact apply_finishesWith done
    | _ =>
      simp only [form, operator] at done
      cases done

omit [Platform ν] in
theorem compile_finishesWith {j : Json ν} (done : c.compile j site ds = some (some e, ds')) :
    c.FinishesWith e := by
  cases j with
  | arr items => exact form_finishesWith done
  | obj members => cases done
  | _ => exact apply_finishesWith done

end Compiler

theorem foldConstant_eq_some {site : Site ν} {e e' : Expr ν} {ds ds' : List Diagnostic}
    (done : foldConstant site e ds = some (some e', ds')) : e.passes = true ∧ e' = e.folded := by
  by_cases passes : e.passes = true
  · rw [foldConstant_of_passes site passes] at done
    cases done
    exact ⟨passes, rfl⟩
  · obtain ⟨err, stopped⟩ := foldConstant_of_not_passes site passes
    rw [stopped] at done
    cases done

/-- Folding keeps the meaning.  A document compiles exactly if it does without folding and every
expression that is finished on the way and has to be folded has a value without a context; the two
results have one type, read the same and have one outcome in every context.  A result at any site
that reads nothing has one outcome in every context, and a value there unless it is an image. -/
theorem folding_keeps_meaning (j : Json ν) (expected : Option Ty) :
    ((∃ e, compileExpr .standard j expected = .ok e) ↔
      (∃ e, compilePlain .standard j expected = .ok e) ∧
        ∀ e : Expr ν, Compiler.Finishes .standard j expected e → e.isFoldable = true →
          ∃ v, e.eval .blank = .ok v) ∧
    (∀ e e' : Expr ν, compileExpr .standard j expected = .ok e →
      compilePlain .standard j expected = .ok e' →
        e.ty = e'.ty ∧ e.subtreeReads = e'.subtreeReads ∧ ∀ env, e.eval env = e'.eval env) ∧
    ∀ (site : Site ν) (ds ds' : List Diagnostic) (e : Expr ν),
      ((Compiler.ofRegistry .standard).compile j site).run ds = some (some e, ds') →
        e.subtreeReads = .none → (∀ a b, e.eval a = e.eval b) ∧
          (e.ty ≠ .resolvedImage → ∃ v, ∀ env, e.eval env = .ok v) := by
  refine ⟨?_, ?_, ?_⟩
  · rcases compile_beside Registry.isStandard_standard j expected with
      fail | ⟨e, e', finished, _, plain, finishes, folding⟩
    · refine ⟨fun ⟨e, done⟩ => absurd done (fail e).1, fun ⟨⟨e, done⟩, _⟩ => absurd done (fail e).2⟩
    · simp only [folding, finishes, ← Expr.passes_iff]
      refine ⟨fun ⟨_, _, pass⟩ => ⟨⟨e', plain⟩, pass⟩, fun ⟨_, pass⟩ => ⟨e, rfl, pass⟩⟩
  · intro f f' done donePlain
    rcases compile_beside Registry.isStandard_standard j expected with
      fail | ⟨e, e', finished, alike, plain, _, folding⟩
    · exact absurd done (fail f).1
    · obtain ⟨rfl, _⟩ := (folding f).mp done
      obtain rfl := Except.ok.inj (plain.symm.trans donePlain)
      exact ⟨alike.ty, alike.reads, alike.eval⟩
  · intro site ds ds' e done readsNothing
    have constant : e.isConstant = true := by simp [Expr.isConstant, readsNothing]
    refine ⟨Expr.eval_eq_of_isConstant constant, fun notImage => ?_⟩
    obtain ⟨_, e', _, _, finished⟩ := Compiler.compile_finishesWith done
    obtain ⟨passes, rfl⟩ := foldConstant_eq_some finished
    have alike := e'.folded_alike
    refine Expr.eval_folded_of_isConstant passes ?_ (alike.ty ▸ notImage)
    rw [← constant, Expr.isConstant, Expr.isConstant, alike.reads]

def checkedText : Expr Float := .assertion .string [.literal (.string "a") .string]

def bareText : Expr Float := .literal (.string "a") .string

theorem folding_keeps_meaning_of_text :
    compileExpr .standard (.arr [.str "string", .str "a"]) none = .ok bareText ∧
    compilePlain .standard (.arr [.str "string", .str "a"]) none = .ok checkedText ∧
    Compiler.Finishes .standard (.arr [.str "string", .str "a"]) none checkedText ∧
    (∃ v, checkedText.eval .blank = .ok v) ∧
    (bareText.ty = checkedText.ty ∧ bareText.subtreeReads = checkedText.subtreeReads ∧
      ∀ env, bareText.eval env = checkedText.eval env) ∧
    ∃ v, ∀ env, bareText.eval env = .ok v := by
  have folded : compileExpr .standard (.arr [.str "string", .str "a"]) none = .ok bareText := by rfl
  have plain : compilePlain .standard (.arr [.str "string", .str "a"]) none = .ok checkedText := by
    rfl
  have run : ((Compiler.ofRegistry .standard).compile (.arr [.str "string", .str "a"])
      (.root none)).run [] = some (some bareText, []) := by rfl
  have finishes : Compiler.Finishes .standard (.arr [.str "string", .str "a"]) none
      checkedText := by
    intro lookedFor looks
    refine ⟨_, _, rfl, ?_⟩
    show sightings lookedFor [bareText] ++ sightings lookedFor [checkedText] ≠ []
    simp [sightings, looks]
  obtain ⟨succeeds, same, constant⟩ :=
    folding_keeps_meaning (ν := Float) (.arr [.str "string", .str "a"]) none
  have passes := (succeeds.mp ⟨bareText, folded⟩).2 checkedText finishes (by rfl)
  exact ⟨folded, plain, finishes, passes, same bareText checkedText folded plain,
    (constant (.root none) [] [] bareText run rfl).2 (by decide)⟩

def imageOfTruth : Expr Float :=
  .coercion .resolvedImage (.assertion .string [.literal (.boolean true) .boolean])

/-- An image is not folded, so that one may be compiled that has no value in any context. -/
theorem image_reads_nothing_and_fails :
    compileExpr .standard (.arr [.str "string", .bool true]) (some .resolvedImage) =
        .ok imageOfTruth ∧
      imageOfTruth.subtreeReads = .none ∧
      ∀ env, imageOfTruth.eval env = .error (.assertion .string .boolean) :=
  ⟨by rfl, rfl, fun _ => by rfl⟩

end MapStyle
