import MapStyle.Compile.Fault
import MapStyle.Expr.Basic

/-!
# Sites

A compilation takes place at a site: a path, the names bound around it, and the type that is
expected there, if any.  It goes through a list of diagnostics to which it adds its own at the end,
and yields a result or none; or it never returns.
-/

set_option autoImplicit false

namespace MapStyle

/-- The names bound around a place, frame by frame from the inside out. -/
structure Scope (ν : Type) where
  frames : List (List (String × Expr ν))
deriving Inhabited

namespace Scope

variable {ν : Type}

def empty : Scope ν := ⟨[]⟩

def extend (s : Scope ν) (bindings : List (String × Expr ν)) : Scope ν := ⟨bindings :: s.frames⟩

/-- What a name is bound to: by the innermost frame that binds it, and there by the last of its
bindings. -/
def get? (s : Scope ν) (name : String) : Option (Expr ν) :=
  s.frames.findSome? fun frame => frame.reverse.lookup name

def has (s : Scope ν) (name : String) : Bool := (s.get? name).isSome

end Scope

/-- A compilation: from the diagnostics so far to a result, if there is one, and the diagnostics
after it; to nothing where it never returns. -/
def Compiling (α : Type) : Type := List Diagnostic → Option (Option α × List Diagnostic)

namespace Compiling

variable {α β : Type}

def run (c : Compiling α) (ds : List Diagnostic) : Option (Option α × List Diagnostic) := c ds

def endless : Compiling α := fun _ => none

/-- Goes on with a result; without one nothing more happens. -/
def andThen (c : Compiling α) (next : α → Compiling β) : Compiling β := fun ds =>
  match c ds with
  | some (some a, ds) => next a ds
  | some (none, ds) => some (none, ds)
  | none => none

instance : Monad Compiling where
  pure a := fun ds => some (some a, ds)
  bind := andThen

/-- Yields whether a compilation has a result, and the result, and goes on if it returns. -/
def attempt (c : Compiling α) : Compiling (Option α) := fun ds =>
  (c ds).map fun (result, ds) => (some result, ds)

/-- Goes through both of two compilations, whether or not the first has a result, and has a result
if both have one. -/
def both (c : Compiling α) (d : Compiling β) : Compiling (α × β) := fun ds =>
  match c ds with
  | some (a?, ds) => (d ds).map fun (b?, ds) => (a?.bind fun a => b?.map fun b => (a, b), ds)
  | none => none

end Compiling

structure Site (ν : Type) where
  path : List Nat
  scope : Scope ν
  expected : Option Ty
deriving Inhabited

namespace Site

variable {ν α : Type}

def root (expected : Option Ty) : Site ν := ⟨[], .empty, expected⟩

def child (s : Site ν) (position : Nat) (expected : Option Ty) : Site ν :=
  ⟨s.path ++ [position], s.scope, expected⟩

def binding (s : Site ν) (bindings : List (String × Expr ν)) : Site ν :=
  { s with scope := s.scope.extend bindings }

/-- Stops with a fault at a place below a site. -/
def failAt (s : Site ν) (below : List Nat) (fault : Fault) : Compiling α := fun ds =>
  some (none, ds ++ [⟨s.path ++ below, fault⟩])

def fail (s : Site ν) (fault : Fault) : Compiling α := s.failAt [] fault

end Site

end MapStyle
