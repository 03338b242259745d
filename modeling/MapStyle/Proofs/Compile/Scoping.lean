import Mathlib.Data.List.Forall2
import MapStyle.Proofs.Compile.Mentions

/-!
# Lexical scoping

A `let` compiles its values in the scope around it and its body in that scope with the bindings
inside.  So in a compiled tree a variable holds what the innermost `let` around it that binds its
name makes of the value, in the scope of that `let`, and what the name is bound to outside if there
is no such `let`.
-/

set_option autoImplicit false

namespace MapStyle

variable {ν : Type}

/-! ## Where the nodes of a tree stand -/

namespace Expr

/-- The children that stand in the scope of their node: all but the body of a `let`. -/
def besides : Expr ν → List (Expr ν)
  | .letIn bindings _ => bindings.map (·.2)
  | e => e.children

/-- A node stands in a tree: where the tree stands in the first scope, the node stands in the
second.  What a variable holds does not stand there. -/
inductive Stands : Scope ν → Expr ν → Scope ν → Expr ν → Prop
  | here (S : Scope ν) (e : Expr ν) : Stands S e S e
  | beside {S S' : Scope ν} {e k e' : Expr ν} : k ∈ e.besides → Stands S k S' e' → Stands S e S' e'
  | body {S S' : Scope ν} {bindings : List (String × Expr ν)} {body e' : Expr ν} :
    Stands (S.extend bindings) body S' e' → Stands S (.letIn bindings body) S' e'

end Expr

/-- The `let` nodes around a variable decide what its name is bound to: the innermost one that binds
the name, and the scope around the tree if none does. -/
theorem Expr.Stands.get?_eq {S S' : Scope ν} {e e' : Expr ν} (stands : Stands S e S' e')
    {name : String} {bound : Expr ν} (found : S'.get? name = some bound) :
    (∃ inner, S'.frames = inner ++ S.frames ∧ (∀ frame ∈ inner, frame.reverse.lookup name = none) ∧
        S.get? name = some bound) ∨
      ∃ S₀ bindings body inner, Stands S e S₀ (.letIn bindings body) ∧
        Stands (S₀.extend bindings) body S' e' ∧ S'.frames = inner ++ bindings :: S₀.frames ∧
        (∀ frame ∈ inner, frame.reverse.lookup name = none) ∧
        bindings.reverse.lookup name = some bound := by
  -- the frames of deeper `let` nodes stand in front, so a `let` passed on the way down decides only
  -- if none of them binds the name
  induction stands with
  | here S e => exact Or.inl ⟨[], rfl, nofun, found⟩
  | beside mem _ ih =>
    rcases ih found with outside | ⟨S₀, bindings, body, inner, standsLet, rest⟩
    · exact Or.inl outside
    · exact Or.inr ⟨S₀, bindings, body, inner, .beside mem standsLet, rest⟩
  | @body S S' bindings body e' stands ih =>
    rcases ih found with ⟨inner, frames, unbound, outside⟩ |
      ⟨S₀, bindings', body', inner, standsLet, rest⟩
    · cases own : bindings.reverse.lookup name with
      | some b =>
        rw [Scope.get?_extend, own] at outside
        obtain rfl := Option.some.inj outside
        exact Or.inr ⟨S, bindings, body, inner, .here S _, stands, frames, unbound, own⟩
      | none =>
        rw [Scope.get?_extend, own] at outside
        refine Or.inl ⟨inner ++ [bindings], ?_, ?_, outside⟩
        · rw [frames, List.append_assoc]
          rfl
        · intro frame mem
          rcases List.mem_append.mp mem with mem | mem
          · exact unbound frame mem
          · rwa [List.mem_singleton.mp mem]
    · exact Or.inr ⟨S₀, bindings', body', inner, .body standsLet, rest⟩

/-! ## What forms of `let` make -/

/-- The names and values of a `let` form in turn; a last document on its own is the body. -/
def Json.letPairs : List (Json ν) → List (String × Json ν)
  | .str name :: value :: rest => (name, value) :: letPairs rest
  | _ => []

namespace Compiler

variable {c : Compiler ν} {root : Json ν} {S : Scope ν}

/-- A document compiles to an expression in a scope. -/
def Yields (c : Compiler ν) (j : Json ν) (S : Scope ν) (expected : Option Ty) (e : Expr ν) : Prop :=
  ∃ path ds ds', c.compile j ⟨path, S, expected⟩ ds = some (some e, ds')

/-- A `let` node as a form of a document makes it: each name of the form is bound to what its value
compiles to in the scope of the node, and the body is compiled with the names bound. -/
structure MakesLet (c : Compiler ν) (root : Json ν) (S : Scope ν)
    (bindings : List (String × Expr ν)) (body : Expr ν) (args : List (Json ν)) : Prop where
  part : Json.Part (.arr (.str "let" :: args)) root
  values : List.Forall₂ (fun pair binding => pair.1 = binding.1 ∧ c.Yields pair.2 S none binding.2)
    (Json.letPairs args) bindings
  body : ∃ j expected, args.getLast? = some j ∧ c.Yields j (S.extend bindings) expected body

/-- In a tree every variable holds what its name is bound to where it stands, and every `let` node
is as a form of the document makes it there. -/
def Scoped (c : Compiler ν) (root : Json ν) (S : Scope ν) (e : Expr ν) : Prop :=
  ∀ S' e', Expr.Stands S e S' e' →
    (∀ name bound, e' = .var name bound → S'.get? name = some bound) ∧
      ∀ bindings body, e' = .letIn bindings body → ∃ args, c.MakesLet root S' bindings body args

theorem scoped_of_children {e : Expr ν} (notVar : ∀ name bound, e ≠ .var name bound)
    (notLet : ∀ bindings body, e ≠ .letIn bindings body)
    (children : ∀ k ∈ e.children, c.Scoped root S k) : c.Scoped root S e := by
  intro S' e' stands
  cases stands with
  | here =>
    exact ⟨fun name bound eq => absurd eq (notVar name bound),
      fun bindings body eq => absurd eq (notLet bindings body)⟩
  | beside mem inside =>
    have besides : e.besides = e.children := by
      cases e with
      | letIn bindings body => exact absurd rfl (notLet bindings body)
      | _ => rfl
    exact children _ (besides ▸ mem) S' e' inside
  | body _ => exact absurd rfl (notLet _ _)

theorem scoped_var {name : String} {bound : Expr ν} (found : S.get? name = some bound) :
    c.Scoped root S (.var name bound) := by
  intro S' e' stands
  cases stands with
  | here =>
    refine ⟨?_, nofun⟩
    rintro _ _ ⟨⟩
    exact found
  | beside mem _ => cases mem

theorem scoped_letIn {bindings : List (String × Expr ν)} {body : Expr ν} {args : List (Json ν)}
    (makes : c.MakesLet root S bindings body args)
    (values : ∀ b ∈ bindings, c.Scoped root S b.2)
    (inside : c.Scoped root (S.extend bindings) body) :
    c.Scoped root S (.letIn bindings body) := by
  intro S' e' stands
  cases stands with
  | here =>
    refine ⟨nofun, ?_⟩
    rintro _ _ ⟨⟩
    exact ⟨args, makes⟩
  | beside mem below =>
    obtain ⟨b, bMem, rfl⟩ := List.mem_map.mp mem
    exact values b bMem S' e' below
  | body below => exact inside S' e' below

end Compiler

/-! ## Trees as compilers make them -/

def Judgement.yielding : Judgement Unit where
  Holds _ R m := ∀ ds a ds', m () ds = some (some a, ds') → R fun _ => a
  yields := by
    rintro α _ R a related ds _ _ ⟨⟩
    exact related
  andThen first later ds b ds' done := by
    obtain ⟨a, rest, doneFirst, doneLater⟩ := Compiling.bind_eq_some done
    exact later (fun _ => a) (first ds a rest doneFirst) rest b ds' doneLater
  both {α β path R S m n} first second ds ab ds' done := by
    simp only [Compiling.both] at done
    rcases doneFirst : m () ds with _ | ⟨_ | a, rest⟩
    · simp [doneFirst] at done
    · simp [doneFirst] at done
    · rcases doneSecond : n () rest with _ | ⟨_ | b, rest'⟩
      · simp [doneFirst, doneSecond] at done
      · simp [doneFirst, doneSecond] at done
      · simp only [doneFirst, doneSecond, Option.bind_some, Option.map_some, Prod.mk.injEq,
          Option.some.injEq] at done
        obtain ⟨rfl, _⟩ := done
        exact ⟨first ds a rest doneFirst, second rest b rest' doneSecond⟩
  Lenient := True
  endless _ _ _ _ done := nomatch done
  fails _ _ _ _ _ done := nomatch done
  above _ holds := holds

variable [Platform ν] {c : Compiler ν} {root : Json ν}

def Congruence.standing (c : Compiler ν) (root : Json ν) (S : Scope ν) : Congruence Unit ν :=
  .ofChildren (fun _ => True) (c.Scoped root S) fun _ notVar notLet _ children =>
    Compiler.scoped_of_children notVar notLet children

namespace Compiler

theorem inStep_yielding (usual : c.IsUsual) (root : Json ν) (S : Scope ν) :
    InStep Judgement.yielding (Congruence.standing c root S) .standard fun _ => c where
  standard := Registry.isStandard_standard
  registry _ := usual.registry
  quotes := Or.inl trivial
  finish {t e} path scope expected together := by
    intro ds a ds' done
    replace done : c.finish ⟨path, scope (), expected⟩ (e ()) ds = some (some a, ds') := done
    rcases usual.finish ⟨path, scope (), expected⟩ (e ()) with ⟨fault, failed⟩ |
      ⟨e', finished, ty, kept⟩
    · rw [failed] at done
      cases done
    · rw [finished] at done
      obtain ⟨rfl, _⟩ : e' = a ∧ ds = ds' := by
        simpa [Compiling.pure_run] using done
      refine ⟨ty.trans together.1, ?_⟩
      rcases kept with rfl | ⟨v, u, rfl⟩
      · exact together.2
      · exact scoped_of_children nofun nofun nofun

theorem bindings_yield {S : Scope ν} {path : List Nat} {expected : Option Ty} :
    (args : List (Json ν)) → (∀ j ∈ args, Readable Judgement.yielding
      (Congruence.standing c root S) (fun scope => scope () = S) fun _ => c.operand j) →
    (position : Nat) → (ds : List Diagnostic) → (bindings : List (String × Expr ν)) →
    (ds' : List Diagnostic) →
    Operator.bindings ⟨path, S, expected⟩ position (args.map c.operand) ds =
      some (some bindings, ds') →
    List.Forall₂ (fun pair binding => pair.1 = binding.1 ∧ c.Yields pair.2 S none binding.2)
      (Json.letPairs args) bindings ∧ ∀ b ∈ bindings, c.Scoped root S b.2
  | [], _, _, ds, bindings, _, done => by
    obtain rfl : [] = bindings := Compiling.eq_of_pure done
    exact ⟨.nil, nofun⟩
  | [j], _, _, ds, bindings, _, done => by
    obtain rfl : [] = bindings := Compiling.eq_of_pure done
    cases j <;> exact ⟨.nil, nofun⟩
  | name :: value :: rest, ready, position, ds, bindings, ds', done => by
    simp only [List.map_cons, Operator.bindings, operand_json] at done
    split at done
    · rename_i n
      split at done
      · obtain ⟨e, ds₁, doneValue, done⟩ := Compiling.bind_eq_some done
        obtain ⟨more, ds₂, doneMore, done⟩ := Compiling.bind_eq_some done
        obtain rfl : (n, e) :: more = bindings := Compiling.eq_of_pure done
        have restReady := fun j mem => ready j (List.mem_cons_of_mem _ (List.mem_cons_of_mem _ mem))
        obtain ⟨values, standing⟩ := bindings_yield rest restReady _ _ _ _ doneMore
        obtain ⟨_, ⟨_, stands⟩, _⟩ :=
          (ready value (by simp)).compile _ (fun _ => S) none rfl ds e ds₁ doneValue
        refine ⟨.cons ⟨rfl, _, ds, ds₁, doneValue⟩ values, ?_⟩
        intro b mem
        rcases List.mem_cons.mp mem with rfl | mem
        · exact stands
        · exact standing b mem
      · cases done
    · cases done

theorem fitNames_yielding (usual : c.IsUsual) (root : Json ν) :
    FitNames Judgement.yielding (Congruence.standing c root) (fun S scope => scope () = S)
      (fun _ => c) fun j => j.Part root where
  items part _ mem := part.items mem
  members part _ mem := part.members mem
  numbers _ _ _ _ _ := trivial
  inStep := inStep_yielding usual root
  var {S scope} path expected js part scopes := by
    intro ds e ds' done
    replace done : Operator.var ⟨"var", js.map c.operand, c.scalar⟩ ⟨path, scope (), expected⟩ ds =
      some (some e, ds') := done
    rw [scopes] at done
    rcases js with _ | ⟨j, _ | ⟨j', rest⟩⟩
    · cases done
    · simp only [Operator.var, List.map_cons, List.map_nil, operand_json] at done
      cases j with
      | str name =>
        cases found : S.get? name with
        | none => simp only [found] at done; cases done
        | some bound =>
          simp only [found] at done
          obtain rfl : .var name bound = e := Compiling.eq_of_pure done
          exact Congruence.fits_none (t := bound.ty) ⟨rfl, scoped_var found⟩
      | _ => cases done
    · cases done
  letIn {S scope} path expected js part ready scopes := by
    intro ds e ds' done
    replace done : Operator.letIn ⟨"let", js.map c.operand, c.scalar⟩
      ⟨path, scope (), expected⟩ ds = some (some e, ds') := done
    rw [scopes] at done
    simp only [Operator.letIn, List.length_map, List.getLast?_map] at done
    by_cases few : js.length < 3
    · rw [if_pos few] at done
      cases done
    · rw [if_neg few] at done
      cases last : js.getLast? with
      | none => rw [last] at done; cases done
      | some j =>
        simp only [last, Option.map_some] at done
        obtain ⟨bindings, ds₁, doneBindings, done⟩ := Compiling.bind_eq_some done
        obtain ⟨body, ds₂, doneBody, done⟩ := Compiling.bind_eq_some done
        obtain rfl : .letIn bindings body = e := Compiling.eq_of_pure done
        have readable (S : Scope ν) (k : Json ν) (mem : k ∈ js) :=
          ((ready S).args (fun _ => c.operand k) (List.mem_map_of_mem mem)).toReadable
        obtain ⟨values, standing⟩ := bindings_yield js (readable S) 1 ds bindings ds₁ doneBindings
        obtain ⟨_, ⟨_, stands⟩, _⟩ :=
          (readable (S.extend bindings) j (List.mem_of_getLast? last)).compile _
            (fun _ => S.extend bindings) expected rfl ds₁ body ds₂ doneBody
        have makes : c.MakesLet root S bindings body js :=
          ⟨part, values, j, expected, last, _, ds₁, ds₂, doneBody⟩
        exact Congruence.fits_none (t := body.ty) ⟨rfl, scoped_letIn makes standing stands⟩

theorem compile_scoped (usual : c.IsUsual) {j : Json ν} {path : List Nat} {S : Scope ν}
    {expected : Option Ty} {ds ds' : List Diagnostic} {e : Expr ν}
    (compiled : c.compile j ⟨path, S, expected⟩ ds = some (some e, ds')) : c.Scoped j S e := by
  have ready := (fitNames_yielding usual j).fitForms.operand_ready j (.whole j) S
  have yields := ready.compile path (fun _ => S) expected rfl
  obtain ⟨_, ⟨_, stands⟩, _⟩ := yields ds e ds' compiled
  exact stands

/-! ## Scoping -/

theorem exists_lookup_reverse {α β : Type} {R : α → β → Prop} {as : List (String × α)}
    {bs : List (String × β)} (related : List.Forall₂ (fun a b => a.1 = b.1 ∧ R a.2 b.2) as bs)
    {name : String} {b : β} (found : bs.reverse.lookup name = some b) :
    ∃ a, as.reverse.lookup name = some a ∧ R a b := by
  have reversed := List.forall₂_reverse_iff.mpr related
  generalize as.reverse = as, bs.reverse = bs at reversed found ⊢
  induction reversed with
  | nil => cases found
  | @cons x y xs ys this _ ih =>
    obtain ⟨n, a⟩ := x
    obtain ⟨_, b'⟩ := y
    obtain ⟨rfl, holds⟩ := this
    rw [lookup_cons_eq_ite] at found ⊢
    split
    · rename_i same
      rw [if_pos same] at found
      exact ⟨a, rfl, Option.some.inj found ▸ holds⟩
    · rename_i differs
      rw [if_neg differs] at found
      exact ih found

/-- The bindings of a `let` form: each value on its own, at a site with the scope of the form. -/
def bindValues (c : Compiler ν) (site : Site ν) : Nat → List (Json ν) →
    Compiling (List (String × Expr ν))
  | position, name :: value :: rest =>
    match name with
    | .str n =>
      if Operator.isBindable n then do
        let e ← c.compile value (site.child (position + 1) none)
        let more ← c.bindValues site (position + 2) rest
        pure ((n, e) :: more)
      else site.failAt [position] .nameCharacters
    | other => site.failAt [position] (.nameNotText other.kindName)
  | _, _ => pure []

omit [Platform ν] in
theorem bindings_eq_bindValues (site : Site ν) : (position : Nat) → (args : List (Json ν)) →
    Operator.bindings site position (args.map c.operand) = c.bindValues site position args
  | _, [] => rfl
  | _, [_] => rfl
  | position, name :: value :: rest => by
    simp only [List.map_cons, Operator.bindings, operand_json, bindValues,
      bindings_eq_bindValues site (position + 2) rest]
    rfl

/-- Compiling a `let` form compiles its values at the site, one after the other, and then its body
with the names bound. -/
theorem compile_let (usual : c.IsUsual) {args : List (Json ν)} {body : Json ν}
    (enough : 3 ≤ args.length) (last : args.getLast? = some body) (site : Site ν) :
    c.compile (.arr (.str "let" :: args)) site = (do
      let bindings ← c.bindValues site 1 args
      let e ← c.compile body ((site.child args.length site.expected).binding bindings)
      pure (.letIn bindings e)) >>= c.settle site := by
  have named : c.registry.get? "let" = some Operator.letIn :=
    usual.registry ▸ Registry.get?_standard (b := .letIn) rfl
  have long : ¬ args.length < 3 := by omega
  rw [compile_form_eq named]
  simp only [Operator.letIn, List.length_map, List.getLast?_map, last, Option.map_some, if_neg long,
    bindings_eq_bindValues]
  rfl

/-- Lexical scoping of `let` and `var` in a document. -/
structure ScopesLexically (c : Compiler ν) (j : Json ν) : Prop where
  /-- names that the document does not mention are not looked up -/
  mentioned : ∀ (path : List Nat) (expected : Option Ty) (S S' : Scope ν),
    (∀ name, j.Mentions name → S.get? name = S'.get? name) →
    c.compile j ⟨path, S, expected⟩ = c.compile j ⟨path, S', expected⟩
  unmentioned : ∀ (path : List Nat) (expected : Option Ty) (S : Scope ν)
    (bindings : List (String × Expr ν)), (∀ b ∈ bindings, ¬ j.Mentions b.1) →
    c.compile j ⟨path, S.extend bindings, expected⟩ = c.compile j ⟨path, S, expected⟩
  shadowed : ∀ (path : List Nat) (expected : Option Ty)
    (inside around : List (List (String × Expr ν))) (outer : List (String × Expr ν)),
    (∀ b ∈ outer, ∃ frame ∈ inside, ∃ b' ∈ frame, b'.1 = b.1) →
    c.compile j ⟨path, ⟨inside ++ outer :: around⟩, expected⟩ =
      c.compile j ⟨path, ⟨inside ++ around⟩, expected⟩
  /-- the bindings of a `let` are in force for its body alone -/
  binding : ∀ (args : List (Json ν)) (body : Json ν) (site : Site ν),
    j = .arr (.str "let" :: args) → 3 ≤ args.length → args.getLast? = some body →
    c.compile j site = (do
      let bindings ← c.bindValues site 1 args
      let e ← c.compile body ((site.child args.length site.expected).binding bindings)
      pure (.letIn bindings e)) >>= c.settle site
  /-- a variable holds, and evaluates as, what the last value for its name in the innermost `let`
  around it that binds the name compiles to in the scope of that `let`; what the name is bound to
  around the document if there is no such `let` -/
  innermost : ∀ (path : List Nat) (expected : Option Ty) (S : Scope ν) (ds ds' : List Diagnostic)
    (e : Expr ν), c.compile j ⟨path, S, expected⟩ ds = some (some e, ds') →
    ∀ S' name bound, Expr.Stands S e S' (.var name bound) →
      (∀ env, (Expr.var name bound).eval env = bound.eval env) ∧
      ((∃ inner, S'.frames = inner ++ S.frames ∧
          (∀ frame ∈ inner, frame.reverse.lookup name = none) ∧ S.get? name = some bound) ∨
        ∃ S₀ bindings body inner args value, Expr.Stands S e S₀ (.letIn bindings body) ∧
          Expr.Stands (S₀.extend bindings) body S' (.var name bound) ∧
          S'.frames = inner ++ bindings :: S₀.frames ∧
          (∀ frame ∈ inner, frame.reverse.lookup name = none) ∧
          bindings.reverse.lookup name = some bound ∧ c.MakesLet j S₀ bindings body args ∧
          (Json.letPairs args).reverse.lookup name = some value ∧ c.Yields value S₀ none bound)

theorem IsUsual.scopesLexically (usual : c.IsUsual) (j : Json ν) : c.ScopesLexically j where
  mentioned path expected _ _ agree := compile_congr usual agree path expected
  unmentioned path expected S _ unmentioned :=
    compile_extend_of_unmentioned usual S unmentioned path expected
  shadowed path expected inside around _ shadowed :=
    compile_drop_of_shadowed usual j inside around shadowed path expected
  binding args body site isLet enough last := by
    subst isLet
    exact compile_let usual enough last site
  innermost path expected S ds ds' e compiled S' name bound stands := by
    have tree := compile_scoped usual compiled
    refine ⟨fun env => by rw [Expr.eval], ?_⟩
    have found := (tree S' _ stands).1 name bound rfl
    rcases stands.get?_eq found with outside |
      ⟨S₀, bindings, body, inner, standsLet, inBody, frames, unbound, innermost⟩
    · exact Or.inl outside
    · obtain ⟨args, makes⟩ := (tree S₀ _ standsLet).2 bindings body rfl
      obtain ⟨value, last, yields⟩ :=
        exists_lookup_reverse (R := fun value e => c.Yields value S₀ none e) makes.values innermost
      exact Or.inr ⟨S₀, bindings, body, inner, args, value, standsLet, inBody, frames, unbound,
        innermost, makes, last, yields⟩

/-- Whether constants are folded or not, `let` and `var` scope lexically in every document. -/
theorem compile_scopesLexically (j : Json ν) :
    (ofRegistry .standard).ScopesLexically j ∧ (withoutFolding .standard).ScopesLexically j :=
  ⟨isUsual_ofRegistry.scopesLexically j, isUsual_withoutFolding.scopesLexically j⟩

end Compiler

end MapStyle
